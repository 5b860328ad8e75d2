import ResourcePruner.Proofs.Backup.Archive
import ResourcePruner.Proofs.Backup.Clear

/-!
# What clearing deletes

Archiving and clearing are called in any order on stores of any projects over one directory. If the
directory was missing or empty before the first call that archives, each file that a call to clear
deletes was written by a call to archive before it: it is the mark or a copy
(`Backup.clears_only_archived`). What carries the induction over the calls is `Backup.Owns`: where
the path leads to a directory, nothing lay in the beginning.

The condition is needed. The mark is all the evidence of ownership that clearing asks for, and the
first call that archives sets it in whatever directory it finds (`Backup.clears_foreign_file`).
-/

namespace ResourcePruner.Backup

open Disk (Extends LosesBare Vacant descend)
open ResourcePruner.Task (Runs Steps IsRun)

/-! ## Archiving, change by change -/

/-- What two sessions' disks have to do with each other. -/
def OnDisks (R : Disk → Disk → Prop) (s s' : Session) : Prop := R s.disk s'.disk

instance (R : Disk → Disk → Prop) [IsRun R] : IsRun (OnDisks R) where
  refl s := IsRun.refl s.disk
  trans hfirst hsecond := IsRun.trans (R := R) hfirst hsecond

section

variable {R : Disk → Disk → Prop} [IsRun R] {store : Store} {path : Path}

/-- Archiving makes directories on the way to the backup directory or below it, and writes the mark
and what it reads from the path. -/
theorem steps_archive_of
    (hmake : ∀ upper disk more, upper.anchor = store.directory.anchor →
      (upper.parts <+: store.directory.parts ∨ store.directory.parts <+: upper.parts) →
      disk.makeDirectory upper = .ok more → R disk more)
    (hwrite : ∀ target content disk more, target.anchor = store.directory.anchor →
      (content = Utf8.encode markerText ∨ disk.read path = .ok content) →
      disk.write target content = .ok more → R disk more) :
    Steps (OnDisks R) (store.archive path) := by
  have hdirectories : ∀ names, Steps (OnDisks R)
      (Task.onDisk (Disk.makeDirectories (descend store.directory names))) := by
    intro names
    refine Task.steps_onDisk fun s => ?_
    refine Disk.steps_makeDirectories (fun upper hanchor hparts disk more => ?_) s.disk
    exact hmake upper disk more hanchor
      (List.prefix_or_prefix_of_prefix hparts (List.prefix_append _ _))
  have hclaim : Steps (OnDisks R) store.claim := by
    refine (Task.steps_check _).bind fun found => .ite (fun _ => .pure _) fun _ => ?_
    have hself := hdirectories []
    rw [show descend store.directory [] = store.directory by simp [descend]] at hself
    exact hself.bind fun _ => Task.steps_changeDisk fun s more =>
      hwrite store.marker _ s.disk more rfl (.inl rfl)
  refine (steps_targetFor path).bind_runs fun {s target s'} htarget => ?_
  obtain ⟨rfl, resolved, names, -, hne, -, rfl⟩ := targetFor_cases htarget
  have hparent := hdirectories names.dropLast
  rw [← Disk.parent_descend _ hne] at hparent
  have hcopy : Steps (OnDisks R) (Store.copyFile path (descend store.directory names)) := by
    refine Task.steps_disk.bind fun disk => .ite (fun _ => .throw _) fun _ => ?_
    refine Task.steps_changeDisk fun s more hcopy => ?_
    obtain ⟨content, hread, hwritten⟩ := copy_cases hcopy
    refine hwrite _ content s.disk more ?_ (.inr hread) hwritten
    unfold Disk.copyTarget
    split <;> rfl
  exact (hclaim.bind fun _ => hparent.bind fun _ => hcopy.bind fun _ => .pure _) s'

end

/-! ## Ownership -/

/-- Where the path leads to a directory now, nothing lay below it in the beginning, and no directory
has gone in which anything lay. -/
structure Owns (directory : Path) (first disk : Disk) : Prop where
  losesBare : LosesBare first disk
  vacant : Vacant first directory disk

/-- The content is that of the mark, or was read from the path once some directories had been
made. -/
def IsOwn (path : Path) (disk : Disk) (content : Bytes) : Prop :=
  content = Utf8.encode markerText ∨ ∃ between, Extends disk between
    ∧ between.read path = .ok content

theorem IsOwn.of_more {path : Path} {disk more : Disk} {content : Bytes}
    (hstays : Extends disk more)
    (hown : IsOwn path more content) : IsOwn path disk content :=
  hown.imp_right fun ⟨between, hbetween, hread⟩ => ⟨between, hstays.trans hbetween, hread⟩

/-- What archiving the path makes of a disk: all it writes is its own, and it keeps what is
owned. -/
structure Archives (directory path : Path) (first disk more : Disk) : Prop where
  stays : Extends disk more
  files : ∀ place content, more.get? place = some (.file content) →
    disk.get? place = some (.file content) ∨ IsOwn path disk content
  owns : Owns directory first disk → Owns directory first more

instance (directory path : Path) (first : Disk) : IsRun (Archives directory path first) where
  refl disk := ⟨.refl disk, fun _ _ => .inl, id⟩
  trans hfirst hsecond := by
    refine ⟨hfirst.stays.trans hsecond.stays, fun place content hfile => ?_,
      fun h => hsecond.owns (hfirst.owns h)⟩
    rcases hsecond.files place content hfile with hbefore | hown
    · exact hfirst.files place content hbefore
    · exact .inr (hown.of_more hfirst.stays)

section

variable {directory path : Path} {first : Disk} (habsolute : directory.isAbsolute = true)
  (hdown : ∀ part ∈ directory.parts, IsDown part)

include habsolute

theorem archives_makeDirectory (hdown : ∀ part ∈ directory.parts, IsDown part) {upper : Path}
    {disk more : Disk} (hanchor : upper.anchor = directory.anchor)
    (hway : upper.parts <+: directory.parts ∨ directory.parts <+: upper.parts)
    (hmake : disk.makeDirectory upper = .ok more) : Archives directory path first disk more := by
  have habsolute' : upper.isAbsolute = true := by
    rw [Path.isAbsolute, hanchor]
    exact habsolute
  obtain ⟨goal, -, hnone, hmore⟩ := Disk.makeDirectory_cases habsolute' hmake
  have hstays : Extends disk more := hmore ▸ Disk.extends_put_directory hnone
  refine ⟨hstays, fun place content hfile => .inl ?_,
    fun howns => ⟨howns.losesBare.mono hstays, ?_⟩⟩
  · rcases Disk.put_cases disk goal.place .directory with hsame | ⟨-, hget⟩
    · rwa [hmore, hsame] at hfile
    · rw [hmore, hget] at hfile
      split at hfile
      · cases hfile
      · exact hfile
  · exact howns.vacant.make howns.losesBare habsolute hdown hanchor hway hmake

theorem archives_write {target : Path} {content : Bytes} {disk more : Disk}
    (hanchor : target.anchor = directory.anchor)
    (hown : content = Utf8.encode markerText ∨ disk.read path = .ok content)
    (hwrite : disk.write target content = .ok more) : Archives directory path first disk more := by
  have habsolute' : target.isAbsolute = true := by
    rw [Path.isAbsolute, hanchor]
    exact habsolute
  have hwriteWith : disk.writeWith target (fun _ => content) = .ok more := hwrite
  have hstays := Disk.extends_of_writeWith habsolute' hwriteWith
  refine ⟨hstays, fun place found hfile => ?_, fun howns => ⟨howns.losesBare.mono hstays,
    howns.vacant.mono (Disk.extends_back_of_writeWith habsolute' hwriteWith)⟩⟩
  obtain ⟨goal, old, -, -, rfl⟩ := Disk.writeWith_cases habsolute' hwriteWith
  rcases Disk.put_cases disk goal.place (.file content) with hsame | ⟨-, hget⟩
  · exact .inl (by rwa [hsame] at hfile)
  · rw [hget] at hfile
    split at hfile
    · cases hfile
      exact .inr (hown.imp_right fun hread => ⟨disk, .refl disk, hread⟩)
    · exact .inl hfile

include hdown

theorem archives_archive (projectRoot : Path) (s : Session) :
    Archives directory path first s.disk
      (Task.exec ((Store.mk projectRoot directory).archive path) s).2.disk :=
  steps_archive_of (R := Archives directory path first)
    (fun _ _ _ => archives_makeDirectory habsolute hdown)
    (fun _ _ _ _ => archives_write habsolute) s

end

/-- Clearing a directory that is owned deletes nothing that was there in the beginning. -/
theorem Owns.empties {directory goal : Path} {first disk after : Disk}
    (howns : Owns directory first disk) (hempties : Empties directory goal disk after) :
    first.IsBare goal.place ∧ Owns directory first after := by
  have hbare := howns.vacant hempties.isLookedUp goal hempties.locates hempties.lies
  refine ⟨hbare, fun place hlies => ?_, fun hlooked goal' hgoal' hlies' => ?_⟩
  · rcases howns.losesBare place hlies with hdirectory | hbare'
    · by_cases habove : goal.place <+: place
      · by_cases hself : place = goal.place
        · exact .inr (hself ▸ hbare)
        · rw [hbare place habove hself] at hlies
          cases hlies
      · exact .inl ((hempties.elsewhere place habove).trans hdirectory)
    · exact .inr hbare'
  · obtain ⟨n, hn, hleads⟩ := hgoal'
    have hpresent : after.get? goal'.place ≠ none := by rw [hlies']; exact Option.some_ne_none _
    have hbefore : disk.Locates directory goal' :=
      ⟨n, hn, hleads.of_less (fun _ _ => hempties.get?_eq_some) hpresent⟩
    rwa [hbefore.unique hempties.locates]

/-! ## Calls in any order -/

/-- A call on a store over a directory. -/
inductive Call where
  | archive (projectRoot path : Path)
  | clear (projectRoot : Path)

namespace Call

/-- The session after a call, whether or not it succeeds. -/
def run (directory : Path) (s : Session) : Call → Session
  | archive projectRoot path => (Task.exec ((Store.mk projectRoot directory).archive path) s).2
  | clear projectRoot => (Task.exec (Store.mk projectRoot directory).clear s).2

/-- The session after some calls, one after another. -/
def runAll (directory : Path) (calls : List Call) (s : Session) : Session :=
  calls.foldl (run directory) s

/-- The call archives. -/
def IsArchive (call : Call) : Prop := ∃ projectRoot path, call = archive projectRoot path

end Call

/-- One of the calls has written that file where it was not before, as the mark or as a copy of what
it archived. -/
def Wrote (directory : Path) (calls : List Call) (s : Session) (place : Place) (content : Bytes) :
    Prop :=
  ∃ before projectRoot path after, calls = before ++ .archive projectRoot path :: after
    ∧ (Call.runAll directory before s).disk.get? place ≠ some (.file content)
    ∧ (Call.run directory (Call.runAll directory before s)
        (.archive projectRoot path)).disk.get? place = some (.file content)
    ∧ IsOwn path (Call.runAll directory before s).disk content

theorem Wrote.cons {directory : Path} {call : Call} {calls : List Call} {s : Session}
    {place : Place}
    {content : Bytes} (hwrote : Wrote directory calls (call.run directory s) place content) :
    Wrote directory (call :: calls) s place content := by
  obtain ⟨before, projectRoot, path, after, rfl, hrest⟩ := hwrote
  exact ⟨call :: before, projectRoot, path, after, rfl, hrest⟩

section

variable {directory : Path} (habsolute : directory.isAbsolute = true)

include habsolute

theorem clear_cases (projectRoot : Path) (s : Session) :
    (Call.run directory s (.clear projectRoot)).disk = s.disk
      ∨ ∃ goal, Empties directory goal s.disk (Call.run directory s (.clear projectRoot)).disk := by
  rcases sweeps_clear (Store.mk projectRoot directory) s with hsame | ⟨-, hremoved⟩
  · exact .inl (congrArg Session.disk hsame)
  · rw [show Call.run directory s (.clear projectRoot) = _ from hremoved]
    exact exec_removeTree habsolute s.disk

variable (hdown : ∀ part ∈ directory.parts, IsDown part)

include hdown

theorem Owns.run {first : Disk} {s : Session} (howns : Owns directory first s.disk) (call : Call) :
    Owns directory first (call.run directory s).disk := by
  cases call with
  | archive projectRoot path => exact (archives_archive habsolute hdown projectRoot s).owns howns
  | clear projectRoot =>
      rcases clear_cases habsolute projectRoot s with hsame | ⟨goal, hempties⟩
      · rwa [hsame]
      · exact (howns.empties hempties).2

theorem Owns.runAll {first : Disk} {s : Session} (howns : Owns directory first s.disk)
    (calls : List Call) : Owns directory first (Call.runAll directory calls s).disk := by
  induction calls generalizing s with
  | nil => exact howns
  | cons call rest ih => exact ih (howns.run habsolute hdown call)

/-- A file that is there after the calls was there before them, or one of them has written it. -/
theorem wrote_of_runAll {calls : List Call} {s : Session} {place : Place} {content : Bytes}
    (hfile : (Call.runAll directory calls s).disk.get? place = some (.file content)) :
    s.disk.get? place = some (.file content) ∨ Wrote directory calls s place content := by
  induction calls generalizing s with
  | nil => exact .inl hfile
  | cons call rest ih =>
      rcases ih hfile with hnext | hwrote
      · by_cases hbefore : s.disk.get? place = some (.file content)
        · exact .inl hbefore
        · refine .inr ?_
          cases call with
          | archive projectRoot path =>
              have harchives : Archives directory path s.disk s.disk _ :=
                archives_archive habsolute hdown projectRoot s
              have hown := (harchives.files place content hnext).resolve_left hbefore
              exact ⟨[], projectRoot, path, rest, rfl, hbefore, hnext, hown⟩
          | clear projectRoot =>
              refine absurd ?_ hbefore
              rcases clear_cases habsolute projectRoot s with hsame | ⟨goal, hempties⟩
              · rwa [hsame] at hnext
              · exact hempties.get?_eq_some hnext
      · exact .inr hwrote.cons

end

/-- While the directory has no mark and nothing has been archived, clearing does nothing. -/
theorem runAll_of_not_marked {directory : Path} {calls : List Call}
    (hcalls : ∀ call ∈ calls, ¬ call.IsArchive) {s : Session}
    (hunmarked : s.disk.isFile (directory.child markerName) ≠ .ok true) :
    Call.runAll directory calls s = s := by
  induction calls with
  | nil => rfl
  | cons call rest ih =>
      obtain ⟨hcall, hrest⟩ := List.forall_mem_cons.mp hcalls
      cases call with
      | archive projectRoot path => exact absurd ⟨projectRoot, path, rfl⟩ hcall
      | clear projectRoot =>
          have hsame := (sweeps_clear (Store.mk projectRoot directory) s).resolve_right
            fun h => hunmarked h.1
          rw [Call.runAll, List.foldl_cons,
            show Call.run directory s (.clear projectRoot) = s from hsame]
          exact ih hrest

/-- The path leads to no directory, or to one that holds nothing. -/
def IsFree (directory : Path) (disk : Disk) : Prop :=
  ∀ place, disk.openDirectory directory = .ok place → disk.children place = []

theorem IsFree.owns {directory : Path} {disk : Disk} (habsolute : directory.isAbsolute = true)
    (hfree : IsFree directory disk) : Owns directory disk disk := by
  refine ⟨(Extends.refl disk).losesBare, fun hlooked goal hgoal hlies => ?_⟩
  exact Disk.isBare_of_children
    (hfree _ (Disk.openDirectory_of_locates habsolute hlooked hgoal hlies))

/-- Whatever is called in whatever order on stores over a directory that had no mark, and that was
missing or empty if anything is archived there: a file that a call to clear deletes was not there in
the beginning, but was written by an earlier call as the mark or as a copy. -/
theorem clears_only_archived {directory : Path} (habsolute : directory.isAbsolute = true)
    (hdown : ∀ part ∈ directory.parts, IsDown part) {s : Session}
    (hunmarked : s.disk.isFile (directory.child markerName) ≠ .ok true) {earlier : List Call}
    (hfree : (∃ call ∈ earlier, call.IsArchive) → IsFree directory s.disk) (projectRoot : Path)
    {place : Place} {content : Bytes}
    (hlies : (Call.runAll directory earlier s).disk.get? place = some (.file content))
    (hgone : (Call.run directory (Call.runAll directory earlier s)
      (.clear projectRoot)).disk.get? place ≠ some (.file content)) :
    s.disk.get? place = none ∧ Wrote directory earlier s place content := by
  by_cases harchive : ∃ call ∈ earlier, call.IsArchive
  · have howns := ((hfree harchive).owns habsolute).runAll habsolute hdown earlier
    rcases clear_cases habsolute projectRoot (Call.runAll directory earlier s) with
      hsame | ⟨goal, hempties⟩
    · exact absurd (hsame ▸ hlies) hgone
    · have hbelow : goal.place <+: place ∧ place ≠ goal.place := by
        constructor
        · refine Classical.not_not.mp fun habove => hgone ?_
          exact (hempties.elsewhere place habove).trans hlies
        · rintro rfl
          rw [hempties.lies] at hlies
          cases hlies
      have hnone := (howns.empties hempties).1 place hbelow.1 hbelow.2
      refine ⟨hnone, (wrote_of_runAll habsolute hdown hlies).resolve_left ?_⟩
      rw [hnone]
      exact nofun
  · -- Nothing has been archived, so this call finds no mark either.
    have hcalls : ∀ call ∈ earlier, ¬ call.IsArchive := fun call hcall h =>
      harchive ⟨call, hcall, h⟩
    have hnow := runAll_of_not_marked hcalls hunmarked
    have hnext : Call.runAll directory [.clear projectRoot] s = s :=
      runAll_of_not_marked (by simp [Call.IsArchive]) hunmarked
    rw [hnow] at hlies hgone
    exact absurd ((congrArg (fun t : Session => t.disk.get? place) hnext).trans hlies) hgone

/-! ## A directory beside a project -/

namespace Beside

def projectRoot : Path := ⟨.root, ["p"]⟩

def source : Path := ⟨.root, ["p", "a.png"]⟩

def directory : Path := ⟨.root, ["b"]⟩

/-- A project with one file. -/
def project : Disk :=
  ((Disk.empty []).put projectRoot.place .directory).put source.place (.file [80])

/-- The project, and a directory beside it that holds notes of someone else. -/
def notes : Disk :=
  (project.put directory.place .directory).put (directory.child "notes").place (.file [75])

def session (disk : Disk) : Session where
  disk
  clock := ⟨2024, 2, 29, 12, 0, 0, 0, by decide, by decide⟩
  trail := .start none "run"
  catalog := .empty
  roots := none
  patience := none

/-- The file is archived, cleared away and archived again; one call cannot find its file. -/
def calls : List Call :=
  [.clear projectRoot, .archive projectRoot source, .clear projectRoot,
    .archive projectRoot (projectRoot.child "none"), .archive projectRoot source]

end Beside

open Beside in
theorem clears_only_archived_beside :
    ((session project).disk.isFile (directory.child markerName) = .ok false
      ∧ IsFree directory (session project).disk
      ∧ (Call.runAll directory calls (session project)).disk.get? ["b", "a.png"] = some (.file [80])
      ∧ (Call.run directory (Call.runAll directory calls (session project))
          (.clear projectRoot)).disk.get? ["b", "a.png"] = none)
    ∧ (session project).disk.get? ["b", "a.png"] = none
    ∧ Wrote directory calls (session project) ["b", "a.png"] [80] := by
  have hunmarked : (session project).disk.isFile (directory.child markerName) = .ok false := rfl
  have hfree : IsFree directory (session project).disk := by
    intro place hopen
    have hmissing :
        (session project).disk.openDirectory directory = .error ⟨.noEntry, directory⟩ := rfl
    rw [hmissing] at hopen
    cases hopen
  have hrun : (Call.runAll directory calls (session project)).disk.get? ["b", "a.png"]
        = some (.file [80])
      ∧ (Call.run directory (Call.runAll directory calls (session project))
          (.clear projectRoot)).disk.get? ["b", "a.png"] = none := by
    decide +kernel
  refine ⟨⟨hunmarked, hfree, hrun⟩, ?_⟩
  have hgone : (Call.run directory (Call.runAll directory calls (session project))
      (.clear projectRoot)).disk.get? ["b", "a.png"] ≠ some (.file [80]) := by
    rw [hrun.2]
    exact nofun
  have hdown : ∀ part ∈ directory.parts, IsDown part := by
    refine List.forall_mem_singleton.mpr ⟨?_, ?_, ?_⟩ <;> decide
  exact clears_only_archived rfl hdown (by rw [hunmarked]; exact nofun) (fun _ => hfree)
    projectRoot hrun.1 hgone

open Beside in
/-- The notes were there before anything was archived, and the next call to clear deletes them. -/
theorem clears_foreign_file :
    (session notes).disk.isFile (directory.child markerName) = .ok false
      ∧ (session notes).disk.get? ["b", "notes"] = some (.file [75])
      ∧ (Call.run directory (session notes) (.clear projectRoot)).disk.get? ["b", "notes"]
          = some (.file [75])
      ∧ (Call.run directory (Call.runAll directory [.archive projectRoot source] (session notes))
          (.clear projectRoot)).disk.get? ["b", "notes"] = none :=
  ⟨rfl, by decide +kernel⟩

end ResourcePruner.Backup
