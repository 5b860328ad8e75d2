import ResourcePruner.Proofs.Disk.Changes
import ResourcePruner.Proofs.Disk.Resolve
import ResourcePruner.Proofs.Usage.Tour

/-!
# Every file once

A scan searches every file below its roots whose extension is one of those searched, and each of
them once, whatever roots overlap (`Usage.counts_each_file_once`). One thing comes in between: a
file is searched by the first path that leads to it, in the dialect of that path's extension. A walk
below a root comes to a file by its own name, but the manifest, or a root that is no directory, may
be a link of another name. Then the file is searched in another dialect or not at all.

Paths are absolute here, as those are that a session has searched
(`Run.isSetUp_and_isFresh_of_openSession`).
-/

namespace ResourcePruner

open Disk (Extends IsLookedUp descend isSkipped IsListed)
open ResourcePruner.Task (Runs Steps IsLogged IsCounted)

namespace Disk

/-! ## Disks on which files grow -/

/-- Something may have been added to the files of a disk, and new ones may be there; its directories
and links are as they were. -/
structure Lengthens (disk more : Disk) : Prop where
  forth : Extends disk more
  back : Extends more disk
  file : ∀ place content, disk.get? place = some (.file content) →
    ∃ added, more.get? place = some (.file (content ++ added))

namespace Lengthens

variable {disk middle more : Disk} {place : Place} {content : Bytes}

theorem refl (disk : Disk) : Lengthens disk disk :=
  ⟨.refl disk, .refl disk, fun _ content h => ⟨[], by rwa [List.append_nil]⟩⟩

theorem trans (hfirst : Lengthens disk middle) (hsecond : Lengthens middle more) :
    Lengthens disk more := by
  refine ⟨hfirst.forth.trans hsecond.forth, hsecond.back.trans hfirst.back,
    fun place content h => ?_⟩
  obtain ⟨added, hadded⟩ := hfirst.file place content h
  obtain ⟨further, hfurther⟩ := hsecond.file place _ hadded
  exact ⟨added ++ further, by rwa [← List.append_assoc]⟩

/-- A file that is the same in the end has been so all the time. -/
theorem get?_file (hfirst : Lengthens disk middle) (hsecond : Lengthens middle more)
    (hbefore : disk.get? place = some (.file content))
    (hafter : more.get? place = some (.file content)) :
    middle.get? place = some (.file content) := by
  obtain ⟨added, hadded⟩ := hfirst.file place content hbefore
  obtain ⟨further, hfurther⟩ := hsecond.file place _ hadded
  rw [hafter, List.append_assoc] at hfurther
  have hnil : added ++ further = [] := by simpa using hfurther
  obtain ⟨rfl, -⟩ := List.append_eq_nil_iff.mp hnil
  rwa [List.append_nil] at hadded

theorem of_append {path : Path} (habsolute : path.isAbsolute = true) {bytes : Bytes}
    (happend : disk.append path bytes = .ok more) : Lengthens disk more := by
  have hwrite : disk.writeWith path (fun old => old.getD [] ++ bytes) = .ok more := happend
  refine ⟨extends_of_writeWith habsolute hwrite, extends_back_of_writeWith habsolute hwrite, ?_⟩
  obtain ⟨goal, old, -, hlies, rfl⟩ := writeWith_cases habsolute hwrite
  intro place content hfile
  rcases put_cases disk goal.place (.file (old.getD [] ++ bytes)) with hsame | ⟨-, hput⟩
  · rw [hsame]
    exact ⟨[], by rwa [List.append_nil]⟩
  · rw [hput]
    split
    · rename_i hplace
      subst hplace
      rw [hlies] at hfile
      obtain ⟨_, rfl, hfile⟩ := Option.map_eq_some_iff.mp hfile
      cases hfile
      exact ⟨bytes, rfl⟩
    · exact ⟨[], by rwa [List.append_nil]⟩

end Lengthens

end Disk

/-- Nothing is done to the disk but to add events to the log. -/
def OnlyRecords (s s' : Session) : Prop :=
  s'.trail.log = s.trail.log
    ∧ ((∀ log, s.trail.log = some log → log.isAbsolute = true) → s.disk.Lengthens s'.disk)

instance : IsCounted OnlyRecords where
  refl s := ⟨rfl, fun _ => .refl s.disk⟩
  trans hfirst hsecond :=
    ⟨hsecond.1.trans hfirst.1, fun h => (hfirst.2 h).trans (hsecond.2 (hfirst.1 ▸ h))⟩
  trail s _ _ := ⟨rfl, fun _ => .refl s.disk⟩
  append _ _ _ _ hlog happend := ⟨rfl, fun h => .of_append (h _ hlog) happend⟩
  catalog s _ _ := ⟨rfl, fun _ => .refl s.disk⟩
  roots s _ _ := ⟨rfl, fun _ => .refl s.disk⟩
  patience s _ := ⟨rfl, fun _ => .refl s.disk⟩

namespace Usage

/-- A walk below the root comes to the file at the place by that path: the root leads to a
directory, and no directory on the way from there is skipped. -/
def IsBelow (settings : ScanSettings) (disk : Disk) (root path : Path) (place : Place)
    (content : Bytes) : Prop :=
  ∃ directory way name, disk.openDirectory root = .ok directory
    ∧ (∀ inner ∈ way, isSkipped settings.skippedDirNames inner = false)
    ∧ path = descend root (way ++ [name]) ∧ place = directory ++ (way ++ [name])
    ∧ disk.get? place = some (.file content)

theorem ListsRoots.exists_of_mem {settings : ScanSettings} {sees : Disk → Prop} {root : Path}
    {roots visited : List Path} (hlists : ListsRoots settings sees roots visited)
    (hroot : root ∈ roots) : ∃ disk, sees disk ∧ ∀ path ∈ filesOn settings disk root,
    path ∈ visited := by
  induction hlists with
  | nil => cases hroot
  | @cons disk hsees other roots visited _ ih =>
      rcases List.mem_cons.mp hroot with rfl | hroot
      · exact ⟨disk, hsees, fun path hpath => List.mem_append_left _ hpath⟩
      · obtain ⟨found, hfound, hmem⟩ := ih hroot
        exact ⟨found, hfound, fun path hpath => List.mem_append_right _ (hmem path hpath)⟩

theorem ListsRoots.exists_root {settings : ScanSettings} {sees : Disk → Prop} {path : Path}
    {roots visited : List Path} (hlists : ListsRoots settings sees roots visited)
    (hpath : path ∈ visited) :
    ∃ disk, sees disk ∧ ∃ root ∈ roots, path ∈ filesOn settings disk root := by
  induction hlists with
  | nil => cases hpath
  | @cons disk hsees other roots visited _ ih =>
      rcases List.mem_append.mp hpath with hpath | hpath
      · exact ⟨disk, hsees, other, List.mem_cons_self, hpath⟩
      · obtain ⟨found, hfound, root, hroot, hmem⟩ := ih hpath
        exact ⟨found, hfound, root, List.mem_cons_of_mem _ hroot, hmem⟩

/-- The dialect of a file depends on its name only. -/
theorem dialectOf?_descend (settings : ScanSettings) (root other : Path) (way way' : List Text)
    (name : Text) : dialectOf? settings (descend root (way ++ [name]))
      = dialectOf? settings (descend other (way' ++ [name])) := by
  apply dialectOf?_of_name
  rw [Disk.name_descend, Disk.name_descend]

theorem locates_of_mem_manifestsOn {disk : Disk} {manifest : Option Path} {path : Path}
    (habsolute : ∀ path, manifest = some path → path.isAbsolute = true)
    (hpath : path ∈ manifestsOn disk manifest) :
    manifest = some path ∧ ∃ goal, disk.Locates path goal := by
  cases manifest with
  | none => cases hpath
  | some manifest =>
      rw [manifestsOn, manifestOn] at hpath
      split at hpath
      · rename_i hfile
        obtain rfl := List.mem_singleton.mp hpath
        obtain ⟨-, goal, -, hgoal, -⟩ := locates_of_isFile (habsolute _ rfl) hfile
        exact ⟨rfl, goal, hgoal⟩
      · cases hpath

/-- How a path that leads to the file comes to be visited: it is the manifest or a root, or it ends
in the file's own name. -/
theorem dialect_of_visited {settings : ScanSettings} {roots : List Path} {manifest : Option Path}
    {disk : Disk} {path goal : Path} (root : Path) {way : List Text} {name : Text}
    (hmanifest : ∀ path, manifest = some path → path.isAbsolute = true)
    (hroots : ∀ root ∈ roots, root.isAbsolute = true)
    (hvisited : path ∈ manifestsOn disk manifest ∨ ∃ root ∈ roots,
      path ∈ filesOn settings disk root)
    (hgoal : disk.Locates path (descend goal (way ++ [name]))) :
    (manifest = some path ∨ path ∈ roots)
      ∨ dialectOf? settings path = dialectOf? settings (descend root (way ++ [name])) := by
  rcases hvisited with hvisited | ⟨other, hother, hvisited⟩
  · exact .inl (.inl (locates_of_mem_manifestsOn hmanifest hvisited).1)
  · obtain ⟨reached, found, -, -, hfound, -, hfinds, -⟩ :=
      finds_of_mem_filesOn (hroots other hother) hvisited
    obtain rfl := hfound.unique hgoal
    rcases hfinds with ⟨rfl, -⟩ | ⟨way', name', -, -, rfl, hsame⟩
    · exact .inl (.inr hother)
    · have hparts := congrArg (fun path => path.parts.getLast?) hsame
      simp only [descend, ← List.append_assoc, List.getLast?_concat, Option.some.injEq] at hparts
      subst hparts
      exact .inr (dialectOf?_descend settings _ _ _ _ _)

/-! ## The visits of a scan -/

section

variable {settings : ScanSettings} {roots rest : List Path} {manifest : Option Path}
  {s s' : Session} {disk : Disk} {path root goal : Path}

/-- All disks of a scan have the same directories and links. -/
theorem lengthens_of_passes (hlog : ∀ log, s.trail.log = some log → log.isAbsolute = true)
    (hdisk : Passes OnlyRecords s s' disk) : s.disk.Lengthens disk ∧ disk.Lengthens s'.disk := by
  obtain ⟨t, hst, hts', rfl⟩ := hdisk
  exact ⟨hst.2 hlog, hts'.2 (hst.1 ▸ hlog)⟩

/-- On some disk of the scan the path leads somewhere, and is the manifest or found at a root. -/
structure IsVisited (settings : ScanSettings) (roots : List Path) (manifest : Option Path)
    (s s' : Session) (path : Path) : Prop where
  isAbsolute : path.isAbsolute = true
  comes : ∃ disk, Passes OnlyRecords s s' disk
    ∧ (path ∈ manifestsOn disk manifest ∨ ∃ root ∈ roots, path ∈ filesOn settings disk root)
    ∧ ∃ goal, disk.Locates path goal

theorem isVisited_of_mem (hmanifest : ∀ path, manifest = some path → path.isAbsolute = true)
    (hroots : ∀ root ∈ roots, root.isAbsolute = true) (hself : Passes OnlyRecords s s' s.disk)
    (hlists : ListsRoots settings (Passes OnlyRecords s s') roots rest)
    (hmem : path ∈ manifestsOn s.disk manifest ++ rest) :
    IsVisited settings roots manifest s s' path := by
  rcases List.mem_append.mp hmem with hmem | hmem
  · obtain ⟨hsome, hgoal⟩ := locates_of_mem_manifestsOn hmanifest hmem
    exact ⟨hmanifest _ hsome, s.disk, hself, .inl hmem, hgoal⟩
  · obtain ⟨disk, hdisk, root, hroot, hmem⟩ := hlists.exists_root hmem
    obtain ⟨_, goal, _, _, hgoal, _, hfinds, _⟩ := finds_of_mem_filesOn (hroots root hroot) hmem
    exact ⟨isAbsolute_of_finds (hroots root hroot) hfinds, disk, hdisk,
      .inr ⟨root, hroot, hmem⟩, goal, hgoal⟩

/-- A visited path leads, all the time, to what it has been resolved to at some time. -/
theorem IsVisited.locates (hvisited : IsVisited settings roots manifest s s' path)
    (hlog : ∀ log, s.trail.log = some log → log.isAbsolute = true)
    (hdisk : Passes OnlyRecords s s' disk) {resolved : Path}
    (hresolve : disk.resolve path = .ok resolved) : s'.disk.Locates path resolved := by
  obtain ⟨other, hother, -, goal, hgoal⟩ := hvisited.comes
  have hthere := hgoal.mono (lengthens_of_passes hlog hother).2.forth
  have hforth := (lengthens_of_passes hlog hdisk).2.forth
  rwa [Disk.eq_of_resolve hforth hvisited.isAbsolute hthere hresolve]

/-- A walk comes to a file below its root that is the same in the end. -/
theorem mem_filesOn_of_isBelow (hroot : root.isAbsolute = true)
    (hfront : s.disk.Lengthens disk) (hback : disk.Lengthens s'.disk) {place : Place}
    {content : Bytes}
    (hbelow : IsBelow settings s.disk root path place content)
    (hafter : s'.disk.get? place = some (.file content)) : path ∈ filesOn settings disk root := by
  obtain ⟨directory, way, name, hopen, hway, rfl, rfl, hlies⟩ := hbelow
  obtain ⟨hlooked, reached, hreached, rfl, -⟩ := Disk.locates_of_openDirectory hroot hopen
  have hlisted := Disk.isListed_of_get? hlies
  refine ((mem_filesOn_iff hroot (hreached.mono hfront.forth) (.refl disk)).mpr
    ⟨hlooked, .inr ⟨way, name, hway, hlisted, rfl, rfl⟩, content, ?_⟩).1
  rw [Disk.place_descend reached hlisted]
  exact hfront.get?_file hback hlies hafter

/-- On a visit of a file with a name like that of a path to it, the lines of its content are
counted, unless the visit's path is too long or is a link of another extension. -/
theorem IsVisited.mentions_cases {visit : Visit} {way : List Text} {name : Text} {content : Bytes}
    {dialect : Dialect} (hvisited : IsVisited settings roots manifest s s' visit.path)
    (hlog : ∀ log, s.trail.log = some log → log.isAbsolute = true)
    (hmanifest : ∀ path, manifest = some path → path.isAbsolute = true)
    (hroots : ∀ root ∈ roots, root.isAbsolute = true)
    (hduring : Passes OnlyRecords s s' visit.disk)
    (hlocates : s'.disk.Locates visit.path (descend goal (way ++ [name])))
    (hbefore : s.disk.get? (descend goal (way ++ [name])).place = some (.file content))
    (hafter : s'.disk.get? (descend goal (way ++ [name])).place = some (.file content))
    (hdialect : dialectOf? settings (descend root (way ++ [name])) = some dialect) :
    (∀ r, visit.mentions settings r
        = (Index.searchedLines content).countP (Reference.Mentions dialect · r))
      ∨ ¬ IsLookedUp visit.path
      ∨ (manifest = some visit.path ∨ visit.path ∈ roots)
        ∧ dialectOf? settings visit.path ≠ some dialect := by
  by_cases hlooked : IsLookedUp visit.path
  · by_cases hextension : dialectOf? settings visit.path = some dialect
    · obtain ⟨hfront, hback⟩ := lengthens_of_passes hlog hduring
      have hread : visit.disk.read visit.path = .ok content :=
        Disk.read_of_locates hvisited.isAbsolute hlooked (hlocates.mono hback.back)
          (hfront.get?_file hback hbefore hafter)
      exact .inl fun r => by rw [Visit.mentions, Visit.search?_of_read visit hextension hread]
    · obtain ⟨disk, hdisk, hlisting, -⟩ := hvisited.comes
      have hthere := hlocates.mono (lengthens_of_passes hlog hdisk).2.back
      rcases dialect_of_visited root hmanifest hroots hlisting hthere with hlink | hown
      · exact .inr (.inr ⟨hlink, hextension⟩)
      · exact absurd (hown.trans hdialect) hextension
  · exact .inr (.inl hlooked)

end

/-- Each count is raised by the lines that mention the resource on some visits, no two of which lead
to the same path. Each file below a root is visited there, and the lines counted then are its lines
that mention the resource in the dialect of its own extension. The only exceptions are a visit by a
path too long to be read, and one by the manifest or a root as a link of another extension. -/
theorem counts_each_file_once {settings : ScanSettings} {roots : List Path} {manifest : Option Path}
    {stats : ScanStats} {s s' : Session}
    (hlog : ∀ log, s.trail.log = some log → log.isAbsolute = true)
    (hmanifest : ∀ path, manifest = some path → path.isAbsolute = true)
    (hroots : ∀ root ∈ roots, root.isAbsolute = true)
    (hruns : Runs (scan settings roots manifest) s stats s') :
    ∃ visits : List Visit, (visits.map Visit.resolved).Nodup
      ∧ (∀ visit ∈ visits, s.disk.Locates visit.path visit.resolved)
      ∧ Catalog.Raises (fun r => (visits.map (·.mentions settings r)).sum) s.catalog s'.catalog
      ∧ ∀ root ∈ roots, ∀ path place content dialect,
        IsBelow settings s.disk root path place content →
        s'.disk.get? place = some (.file content) → dialectOf? settings path = some dialect →
        ∃ visit ∈ visits, s.disk.Locates path visit.resolved ∧ visit.resolved.place = place
          ∧ ((∀ r, visit.mentions settings r
              = (Index.searchedLines content).countP (Reference.Mentions dialect · r))
            ∨ ¬ IsLookedUp visit.path
            ∨ (manifest = some visit.path ∨ visit.path ∈ roots)
              ∧ dialectOf? settings visit.path ≠ some dialect) := by
  obtain ⟨visits, rest, next, hpaths, hlists, htour⟩ := exists_tour OnlyRecords hruns
  have hscan : OnlyRecords s s' := (steps_scan settings roots manifest).runs hruns
  have hstart : Passes OnlyRecords s s' s.disk := ⟨s, Task.IsRun.refl s, hscan, rfl⟩
  have hend := lengthens_of_passes hlog ⟨s', hscan, Task.IsRun.refl s', rfl⟩
  have hvisited : ∀ visit ∈ visits, IsVisited settings roots manifest s s' visit.path :=
    fun _ hvisit =>
    isVisited_of_mem hmanifest hroots hstart hlists (hpaths ▸ List.mem_map_of_mem hvisit)
  have hresolved : ∀ visit ∈ visits, s'.disk.Locates visit.path visit.resolved :=
    fun visit hvisit =>
    (hvisited visit hvisit).locates hlog (htour.during visit hvisit) (htour.resolves visit hvisit)
  refine ⟨firstVisits [] visits, nodup_firstVisits [] visits, fun visit hvisit => ?_,
    htour.raises, ?_⟩
  · exact (hresolved visit (mem_firstVisits_of_mem hvisit).1).mono hend.1.back
  intro root hroot path place content dialect hbelow hafter hdialect
  -- The walk below the root comes to the file.
  have hmem : path ∈ rest := by
    obtain ⟨disk, hdisk, hfiles⟩ := hlists.exists_of_mem hroot
    obtain ⟨hfront, hback⟩ := lengthens_of_passes hlog hdisk
    exact hfiles _ (mem_filesOn_of_isBelow (hroots root hroot) hfront hback hbelow hafter)
  obtain ⟨own, hown, hpath⟩ := List.mem_map.mp (hpaths ▸ List.mem_append_right _ hmem)
  obtain ⟨directory, way, name, hopen, -, rfl, rfl, hlies⟩ := hbelow
  obtain ⟨-, reached, hreached, rfl, -⟩ := Disk.locates_of_openDirectory (hroots root hroot) hopen
  have hgoal := hreached.descend_of_get? hlies rfl
  have hplace := Disk.place_descend reached (Disk.isListed_of_get? hlies)
  have hownResolved : own.resolved = descend reached (way ++ [name]) :=
    (hpath ▸ hresolved own hown).unique (hgoal.mono hend.1.forth)
  -- The file is counted on the first visit to it.
  obtain ⟨visit, hfirst, hsame⟩ := exists_firstVisit hown (List.not_mem_nil (a := own.resolved))
  rw [hownResolved] at hsame
  have hvisit := (mem_firstVisits_of_mem hfirst).1
  refine ⟨visit, hfirst, hsame ▸ hgoal, hsame ▸ hplace, ?_⟩
  rw [← hplace] at hlies hafter
  exact (hvisited visit hvisit).mentions_cases hlog hmanifest hroots (htour.during visit hvisit)
    (hsame ▸ hresolved visit hvisit) hlies hafter hdialect

namespace Linked

def root : Path := ⟨.root, ["a"]⟩

/-- The manifest, as a link that has no extension. -/
def manifest : Path := ⟨.root, ["a", "Manifest"]⟩

def place : Place := ["a", "Main.kt"]

def text : Bytes := Utf8.encode "R.string.s"

def title : Resource := ⟨.string, "s"⟩

/-- A file of code that the manifest is a link to. -/
def start : Session where
  disk := (((Disk.empty []).put ["a"] .directory).put ["a", "Main.kt"] (.file text)).put
    ["a", "Manifest"] (.link "Main.kt")
  clock := ⟨2025, 6, 1, 12, 30, 0, 0, by decide, by decide⟩
  trail := .start none "run"
  catalog := Catalog.empty.declare title ⟨.root, ["a", "res", "values", "s.xml"]⟩
  roots := none
  patience := none

def scanned : Except Failure ScanStats × Session :=
  Task.exec (scan .default [root] (some manifest)) start

end Linked

/-- A file that the manifest is a link to is not searched for want of an extension, although it is
of the code dialect and has a line that mentions the resource. -/
theorem counts_each_file_once_linked :
    (Linked.scanned.2.catalog.get? Linked.title).map (·.uses) = some 0
      ∧ (Index.searchedLines Linked.text).countP (Reference.Mentions .code · Linked.title) = 1
      ∧ ∃ visits : List Visit, (visits.map Visit.resolved).Nodup
        ∧ ∃ visit ∈ visits, visit.resolved.place = Linked.place
          ∧ (visit.mentions .default Linked.title = 1 ∨ ¬ IsLookedUp visit.path
            ∨ (some Linked.manifest = some visit.path ∨ visit.path ∈ [Linked.root])
              ∧ dialectOf? .default visit.path ≠ some .code) := by
  have hok : (Linked.scanned.2.catalog.get? Linked.title).map (·.uses) = some 0
      ∧ (Index.searchedLines Linked.text).countP (Reference.Mentions .code · Linked.title) = 1
      ∧ Linked.scanned.1.toOption.isSome = true
      ∧ (Linked.start.disk.openDirectory Linked.root).toOption = some Linked.root.parts
      ∧ Linked.start.disk.get? Linked.place = some (.file Linked.text)
      ∧ Linked.scanned.2.disk.get? Linked.place = some (.file Linked.text)
      ∧ dialectOf? .default (descend Linked.root ["Main.kt"]) = some .code := by
    decide +kernel
  obtain ⟨huses, hmentions, hruns, hopen, hlies, hafter, hdialect⟩ := hok
  refine ⟨huses, hmentions, ?_⟩
  obtain ⟨visits, hnodup, -, -, hfiles⟩ := counts_each_file_once (s := Linked.start) nofun
    (by rintro path ⟨rfl⟩; rfl) (List.forall_mem_singleton.mpr rfl)
    (Task.runs_of_exec (e := Linked.scanned) rfl ⟨0, 0, 0, 0⟩ hruns)
  have hbelow : IsBelow .default Linked.start.disk Linked.root (descend Linked.root ["Main.kt"])
      Linked.place Linked.text := by
    refine ⟨Linked.root.parts, [], "Main.kt", ?_, nofun, rfl, rfl, hlies⟩
    cases hopened : Linked.start.disk.openDirectory Linked.root with
    | ok place =>
        rw [hopened] at hopen
        exact congrArg Except.ok (Option.some.inj hopen)
    | error error =>
        rw [hopened] at hopen
        cases hopen
  obtain ⟨visit, hvisit, -, hplace, hcount⟩ := hfiles _ (List.mem_singleton_self _) _ _ _ _ hbelow
    hafter hdialect
  exact ⟨visits, hnodup, visit, hvisit, hplace, hcount.imp_left fun h => (h _).trans hmentions⟩

end Usage

end ResourcePruner
