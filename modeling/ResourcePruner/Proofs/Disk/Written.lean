import ResourcePruner.Proofs.Disk.Attains
import ResourcePruner.Proofs.Disk.Changes
import ResourcePruner.Proofs.Task.Follows

/-!
# Disks that differ by what is written

While a log is written, nothing else changes on a disk. Then every path that does not lead to the
log is answered as before, up to whether a missing directory or a file stands in its way
(`Disk.gist_reach_of_writtenAt`). A file that can be added to once can be added to again
(`Disk.exists_append_again`).
-/

namespace ResourcePruner

namespace Disk

/-- What a name that is not there says does not depend on what lies elsewhere; its file can be
made. -/
def HasRoom (disk : Disk) (place : Place) : Prop :=
  (∃ old, disk.get? place = some (.file old))
    ∨ disk.get? place = none ∧ ∀ name, place.getLast? = some name → byteCount name ≤ maxNameBytes

/-- Nothing has changed on a disk but files that were written at the places. -/
structure WrittenAt (places : Place → Prop) (base disk : Disk) : Prop where
  elsewhere : ∀ place, ¬ places place → disk.get? place = base.get? place
  there : ∀ place, places place → disk.get? place = base.get? place
    ∨ (∃ content, disk.get? place = some (.file content)) ∧ base.HasRoom place

/-- What two ways of following a path on such disks have to do with each other. -/
inductive Reach.Alike (places : Place → Prop) : Reach → Reach → Prop
  | same (reached : Reach) : Alike places reached reached
  | changed {place : Place} {old content : Bytes} (hplace : places place) :
      Alike places (.found place (.file old)) (.found place (.file content))
  | made {directory : Place} {name : Text} {content : Bytes}
      (hplace : places (directory ++ [name])) :
      Alike places (.missing directory name) (.found (directory ++ [name]) (.file content))
  | blocked : Alike places (.failed .noEntry) (.failed .notDirectory)

/-- Where a path leads, be it a missing directory or a file in its stead that keeps it from leading
anywhere. -/
def Reach.gist : Reach → Reach
  | .failed .notDirectory => .failed .noEntry
  | reached => reached

theorem Reach.eq_or_blocked {first second : Reach} (hgist : first.gist = second.gist) :
    first = second ∨ ∃ code code', first = .failed code ∧ second = .failed code'
      ∧ (code = .noEntry ∨ code = .notDirectory) ∧ (code' = .noEntry ∨ code' = .notDirectory) := by
  have hgistOf : ∀ {reached : Reach}, reached ≠ .failed .notDirectory → reached.gist = reached := by
    intro reached hne
    unfold gist
    split
    · exact absurd rfl hne
    · rfl
  by_cases hfirst : first = .failed .notDirectory
  · subst hfirst
    by_cases hsecond : second = .failed .notDirectory
    · exact .inl hsecond.symm
    · rw [hgistOf hsecond] at hgist
      exact .inr ⟨_, _, rfl, hgist.symm, .inr rfl, .inl rfl⟩
  · rw [hgistOf hfirst] at hgist
    by_cases hsecond : second = .failed .notDirectory
    · subst hsecond
      exact .inr ⟨_, _, hgist, rfl, .inl rfl, .inr rfl⟩
    · exact .inl (hgist.trans (hgistOf hsecond))

section

variable {places : Place → Prop} {base disk more : Disk} {path : Path}

theorem HasRoom.isEnd {place : Place} (hroom : base.HasRoom place) : IsEnd (base.get? place) := by
  rcases hroom with ⟨old, hfile⟩ | ⟨hnone, -⟩
  · exact hfile ▸ isEnd_file old
  · exact hnone ▸ isEnd_none

/-! ## Following a path -/

theorem followNames_alike (hwritten : WrittenAt places base disk) {ending : Ending}
    (hending : ending ≠ .entry) {expand expand' : Place → List Text → Reach}
    (hexpand : ∀ place names, Reach.Alike places (expand place names) (expand' place names))
    (place : Place) (names : List Text) :
    Reach.Alike places (base.followNames ending expand place names)
      (disk.followNames ending expand' place names) := by
  induction names generalizing place with
  | nil => exact .same _
  | cons name rest ih =>
      rcases isDown_cases name with hname | rfl | hname
      · rw [followNames_cons_stay hname, followNames_cons_stay hname]
        exact ih place
      · rw [followNames_cons_up, followNames_cons_up]
        exact ih place.dropLast
      · rw [followNames_cons_down hname, followNames_cons_down hname]
        simp only [hending, decide_false, Bool.and_false, Bool.false_eq_true, if_false]
        split
        · exact .same _
        have hsame : disk.get? (place ++ [Utf8.canonicalName name])
              = base.get? (place ++ [Utf8.canonicalName name])
            ∨ places (place ++ [Utf8.canonicalName name])
              ∧ (∃ content, disk.get? (place ++ [Utf8.canonicalName name]) = some (.file content))
              ∧ base.HasRoom (place ++ [Utf8.canonicalName name]) := by
          by_cases hplace : places (place ++ [Utf8.canonicalName name])
          · exact (hwritten.there _ hplace).imp_right fun h => ⟨hplace, h⟩
          · exact .inl (hwritten.elsewhere _ hplace)
        rcases hsame with hsame | ⟨hplace, ⟨content, hcontent⟩, ⟨old, hold⟩ | ⟨hnone, hshort⟩⟩
        · rw [hsame]
          cases base.get? (place ++ [Utf8.canonicalName name]) with
          | none => exact .same _
          | some entry =>
              cases entry with
              | directory => exact ih _
              | file content => exact .same _
              | link target => exact hexpand _ _
        · rw [hcontent, hold]
          simp only
          split
          · exact .changed hplace
          · exact .same _
        · rw [hcontent, hnone]
          simp only [reachAbsent]
          rw [if_neg (Nat.not_lt.mpr (hshort _ List.getLast?_concat))]
          split
          · exact .made hplace
          · exact .blocked

theorem reachFrom_alike (hwritten : WrittenAt places base disk) {ending : Ending}
    (hending : ending ≠ .entry) (links : Nat) (place : Place) (names : List Text) :
    Reach.Alike places (base.reachFrom ending links place names)
      (disk.reachFrom ending links place names) := by
  induction links generalizing place names with
  | zero => exact followNames_alike hwritten hending (fun _ _ => .same _) place names
  | succ links ih => exact followNames_alike hwritten hending ih place names

theorem reach_alike (hwritten : WrittenAt places base disk) {ending : Ending}
    (hending : ending ≠ .entry) (hstart : disk.startOf path = base.startOf path) :
    Reach.Alike places (base.reach ending path) (disk.reach ending path) := by
  rw [reach, reach]
  split
  · exact .same _
  · split
    · exact .same _
    · rw [hstart]
      split
      · exact reachFrom_alike hwritten hending maxLinks _ path.parts
      · exact .same _

/-- A path that does not lead to what is written leads where it led before. -/
theorem gist_reach_of_attains (hwritten : WrittenAt places base disk)
    (hstarts : base.StartsInDirectory path) (hstart : disk.startOf path = base.startOf path)
    (hgoal : ∀ goal, base.Attains path goal → ¬ places goal.place) :
    (disk.reach .target path).gist = (base.reach .target path).gist := by
  have halike := reach_alike hwritten (show Ending.target ≠ .entry by decide) hstart
  generalize hbefore : base.reach .target path = before at halike ⊢
  generalize disk.reach .target path = after at halike
  cases halike with
  | same => rfl
  | changed hplace =>
      obtain ⟨-, goal, hattains, rfl, -⟩ := exists_attains_of_found hstarts hbefore rfl
      exact absurd hplace (hgoal goal hattains)
  | made hplace =>
      obtain ⟨-, goal, hattains, hsame, -⟩ := exists_attains_of_missing hstarts hbefore
      exact absurd (hsame ▸ hplace) (hgoal goal hattains)
  | blocked => rfl

theorem gist_reach_of_writtenAt (hwritten : WrittenAt places base disk)
    (habsolute : path.isAbsolute = true)
    (hgoal : ∀ goal, base.Locates path goal → ¬ places goal.place) :
    (disk.reach .target path).gist = (base.reach .target path).gist :=
  gist_reach_of_attains hwritten (startsInDirectory_of_isAbsolute base habsolute)
    ((startOf_of_isAbsolute disk habsolute).trans (startOf_of_isAbsolute base habsolute).symm)
    fun goal hattains => hgoal goal ((attains_iff_locates habsolute).mp hattains)

/-- Whether a path leads to an entry of some kind is told by where it leads. -/
theorem leadsTo_eq_of_gist {other : Disk}
    (hgist : (other.reach .target path).gist = (disk.reach .target path).gist)
    (kind : Entry → Bool) :
    other.leadsTo kind path = disk.leadsTo kind path := by
  rw [leadsTo, leadsTo]
  rcases Reach.eq_or_blocked hgist with hsame | ⟨code, code', hother, hdisk, hcode, hcode'⟩
  · rw [hsame]
  · rw [hother, hdisk]
    rcases hcode with rfl | rfl <;> rcases hcode' with rfl | rfl <;> rfl

/-- A path opens the same directory where it leads to the same, or is refused. -/
theorem openDirectory_of_gist {other : Disk}
    (hgist : (other.reach .target path).gist = (disk.reach .target path).gist) :
    Task.Answers Eq (disk.openDirectory path) (other.openDirectory path) := by
  rw [openDirectory, openDirectory]
  rcases Reach.eq_or_blocked hgist with hsame | ⟨code, code', hother, hdisk, hcode, hcode'⟩
  · rw [hsame]
    exact .of_eq rfl
  · rw [hother, hdisk]
    refine .error ?_
    rcases hcode with rfl | rfl <;> rcases hcode' with rfl | rfl <;> rfl

/-! ## Writing -/

namespace WrittenAt

theorem refl (places : Place → Prop) (disk : Disk) : WrittenAt places disk disk :=
  ⟨fun _ _ => rfl, fun _ _ => .inl rfl⟩

/-- What a directory or a link is, is the same on both disks. -/
theorem get?_eq_some_iff (hwritten : WrittenAt places base disk) {entry : Entry}
    (hentry : ∀ content, entry ≠ .file content) (place : Place) :
    disk.get? place = some entry ↔ base.get? place = some entry := by
  by_cases hplace : places place
  · rcases hwritten.there place hplace with hsame | ⟨⟨content, hcontent⟩, hroom⟩
    · rw [hsame]
    · rw [hcontent]
      constructor
      · intro h
        exact absurd (Option.some.inj h).symm (hentry content)
      · intro h
        have hend := h ▸ hroom.isEnd
        cases entry with
        | file old => exact absurd rfl (hentry old)
        | directory => exact absurd rfl hend.1
        | link target => exact absurd rfl (hend.2 target)
  · rw [hwritten.elsewhere place hplace]

theorem stays (hwritten : WrittenAt places base disk) : Extends base disk :=
  ⟨fun place => (hwritten.get?_eq_some_iff (by simp) place).mpr,
    fun place _ => (hwritten.get?_eq_some_iff (by simp) place).symm⟩

theorem back (hwritten : WrittenAt places base disk) : Extends disk base :=
  ⟨fun place => (hwritten.get?_eq_some_iff (by simp) place).mp,
    fun place _ => hwritten.get?_eq_some_iff (by simp) place⟩

theorem attains_iff (hwritten : WrittenAt places base disk)
    (hstart : disk.startOf path = base.startOf path) {goal : Path} :
    disk.Attains path goal ↔ base.Attains path goal :=
  ⟨fun h => h.mono hwritten.back hstart.symm, fun h => h.mono hwritten.stays hstart⟩

theorem startsInDirectory_iff (hwritten : WrittenAt places base disk)
    (hstart : disk.startOf path = base.startOf path) :
    disk.StartsInDirectory path ↔ base.StartsInDirectory path := by
  rw [StartsInDirectory, StartsInDirectory, hstart]
  exact forall₂_congr fun start _ => hwritten.get?_eq_some_iff (by simp) start

theorem trans (hwritten : WrittenAt places base disk) (hagain : WrittenAt places disk more) :
    WrittenAt places base more := by
  refine ⟨fun place hplace => (hagain.elsewhere place hplace).trans
    (hwritten.elsewhere place hplace), fun place hplace => ?_⟩
  rcases hwritten.there place hplace with hsame | ⟨hfile, hroom⟩
  · rw [HasRoom, ← hsame]
    exact hagain.there place hplace
  · rcases hagain.there place hplace with hsame | ⟨hfile, -⟩
    · exact .inr ⟨hsame.symm ▸ hfile, hroom⟩
    · exact .inr ⟨hfile, hroom⟩

theorem locates_iff (hwritten : WrittenAt places base disk) {goal : Path} :
    disk.Locates path goal ↔ base.Locates path goal :=
  ⟨fun h => h.mono hwritten.back, fun h => h.mono hwritten.stays⟩

end WrittenAt

/-- A file that is found lies there, and one that is missing could be made: its name is not too long
for an entry. -/
def Reach.IsBorneOut (disk : Disk) : Reach → Prop
  | .found place (.file old) => disk.get? place = some (.file old)
  | .missing directory name =>
    disk.get? (directory ++ [name]) = none ∧ byteCount name ≤ maxNameBytes
  | _ => True

theorem isBorneOut_followNames {ending : Ending} {expand : Place → List Text → Reach}
    (hexpand : ∀ place names, (expand place names).IsBorneOut disk) (place : Place)
    (names : List Text) :
    (disk.followNames ending expand place names).IsBorneOut disk := by
  induction names generalizing place with
  | nil => trivial
  | cons name rest ih =>
      rcases isDown_cases name with hname | rfl | hname
      · rw [followNames_cons_stay hname]
        exact ih place
      · rw [followNames_cons_up]
        exact ih place.dropLast
      · rw [followNames_cons_down hname]
        split
        · trivial
        · split
          · rename_i hnone
            rw [reachAbsent]
            split
            · trivial
            · rename_i hshort
              split
              · exact ⟨hnone, Nat.not_lt.mp hshort⟩
              · trivial
          · exact ih _
          · rename_i hfile
            split
            · exact hfile
            · trivial
          · split
            · trivial
            · exact hexpand _ _

theorem isBorneOut_reach (disk : Disk) (ending : Ending) (path : Path) :
    (disk.reach ending path).IsBorneOut disk := by
  have hfrom : ∀ links place names, (disk.reachFrom ending links place names).IsBorneOut disk := by
    intro links
    induction links with
    | zero => exact isBorneOut_followNames fun _ _ => trivial
    | succ links ih => exact isBorneOut_followNames ih
  rw [reach]
  split
  · trivial
  · split
    · trivial
    · split
      · exact hfrom _ _ _
      · trivial

/-- A file is written only where there is room for it, which is where the path leads. -/
theorem exists_hasRoom_of_writeWith {content : Option Bytes → Bytes}
    (hwrite : disk.writeWith path content = .ok more) :
    ∃ place old, disk.HasRoom place ∧ more = disk.put place (.file (content old))
      ∧ (disk.StartsInDirectory path → ∃ goal, disk.Attains path goal ∧ goal.place = place) := by
  have hborne := isBorneOut_reach disk .newFile path
  rw [writeWith] at hwrite
  split at hwrite
  · rename_i place old hfound
    rw [hfound] at hborne
    refine ⟨place, some old, .inl ⟨old, hborne⟩, (Except.ok.inj hwrite).symm, fun hstarts => ?_⟩
    obtain ⟨-, goal, hattains, hplace, -⟩ := exists_attains_of_found hstarts hfound rfl
    exact ⟨goal, hattains, hplace⟩
  · cases hwrite
  · rename_i directory name hmissing
    rw [hmissing] at hborne
    refine ⟨directory ++ [name], none, .inr ⟨hborne.1, fun last hlast => ?_⟩,
      (Except.ok.inj hwrite).symm, fun hstarts => ?_⟩
    · rw [List.getLast?_concat] at hlast
      exact Option.some.inj hlast ▸ hborne.2
    · obtain ⟨-, goal, hattains, hplace, -⟩ := exists_attains_of_missing hstarts hmissing
      exact ⟨goal, hattains, hplace⟩
  · cases hwrite

/-- A file is put where there is room for it, and nothing else has changed. -/
theorem WrittenAt.put (hwritten : WrittenAt places base disk) {place : Place}
    (hplace : places place)
    (hroom : disk.HasRoom place) (content : Bytes) :
    WrittenAt places base (disk.put place (.file content)) := by
  rcases put_cases disk place (.file content) with hsame | ⟨-, hget⟩
  · rwa [hsame]
  · refine ⟨fun other hnot => ?_, fun other hthere => ?_⟩
    · rw [hget, if_neg, hwritten.elsewhere other hnot]
      rintro rfl
      exact hnot hplace
    · rw [hget]
      split
      · rename_i heq
        refine .inr ⟨⟨_, rfl⟩, heq ▸ ?_⟩
        rcases hwritten.there _ hplace with hsame | ⟨-, hbase⟩
        · rwa [HasRoom, ← hsame]
        · exact hbase
      · exact hwritten.there other hthere

/-- The disk stays one on which nothing else has changed when the file is written again. -/
theorem WrittenAt.append (hwritten : WrittenAt places base disk)
    (hstarts : disk.StartsInDirectory path)
    (hplaces : ∀ goal, disk.Attains path goal → places goal.place) {content : Bytes}
    (happend : disk.append path content = .ok more) : WrittenAt places base more := by
  have hwrite : disk.writeWith path (fun old => old.getD [] ++ content) = .ok more := happend
  obtain ⟨place, old, hroom, rfl, hgoal⟩ := exists_hasRoom_of_writeWith hwrite
  obtain ⟨goal, hattains, rfl⟩ := hgoal hstarts
  exact hwritten.put (hplaces goal hattains) hroom _

theorem WrittenAt.append_of_isAbsolute (hwritten : WrittenAt places base disk)
    (habsolute : path.isAbsolute = true)
    (hplaces : ∀ goal, base.Locates path goal → places goal.place)
    {content : Bytes} (happend : disk.append path content = .ok more) :
    WrittenAt places base more :=
  hwritten.append (startsInDirectory_of_isAbsolute disk habsolute) (fun goal hgoal =>
    hplaces goal (hwritten.locates_iff.mp ((attains_iff_locates habsolute).mp hgoal))) happend

/-- A path to which something can be added leads to a file, or to where one can be made. -/
theorem exists_append_iff (disk : Disk) (path : Path) (content : Bytes) :
    (∃ more, disk.append path content = .ok more) ↔
      (∃ place old, disk.reach .newFile path = .found place (.file old))
        ∨ ∃ directory name, disk.reach .newFile path = .missing directory name := by
  rw [Disk.append, writeWith]
  cases disk.reach .newFile path with
  | failed code => simp
  | missing directory name => simp
  | found place entry => cases entry <;> simp

/-- Whether something can be added to a file does not depend on what it is. -/
theorem exists_append {content : Bytes} (happend : disk.append path content = .ok more)
    (other : Bytes) : ∃ more, disk.append path other = .ok more :=
  (exists_append_iff disk path other).mpr ((exists_append_iff disk path content).mp ⟨more, happend⟩)

/-- Nor does it depend on what is written. -/
theorem WrittenAt.exists_append_iff (hwritten : WrittenAt places base disk)
    (hstart : disk.startOf path = base.startOf path) (content : Bytes) :
    (∃ more, disk.append path content = .ok more) ↔ ∃ more,
      base.append path content = .ok more := by
  rw [Disk.exists_append_iff, Disk.exists_append_iff]
  have halike := reach_alike hwritten (show Ending.newFile ≠ .entry by decide) hstart
  generalize base.reach .newFile path = before at halike ⊢
  generalize disk.reach .newFile path = after at halike ⊢
  cases halike <;> simp

/-- What could be added to once can be added to again. -/
theorem exists_append_again {content : Bytes} (happend : disk.append path content = .ok more)
    (other : Bytes) : ∃ again, more.append path other = .ok again := by
  have hwrite : disk.writeWith path (fun old => old.getD [] ++ content) = .ok more := happend
  obtain ⟨place, old, hroom, rfl, -⟩ := exists_hasRoom_of_writeWith hwrite
  have hwritten := (WrittenAt.refl (· = place) disk).put rfl hroom (old.getD [] ++ content)
  exact (hwritten.exists_append_iff (startOf_put ..) other).mpr (exists_append happend other)

end

end Disk

end ResourcePruner
