import ResourcePruner.Proofs.Backup.Clear
import ResourcePruner.Proofs.Index.Standing

/-!
# What is true of the backups at any time

`Custody.Holds` is what a run keeps true of the disk once the backup directory has been cleared: a
file of the project is there still, or a copy of what it held at first lies in the backup directory.
It comes with what makes the next copy a true one: the files that may be deleted have not been
changed, and the directories among the backups are those of the project, so that no copy goes into a
directory.

An operation changes what lies at a single place. `Custody.Holds.of_except` tells what has to be
said of it; the lemmas after it say it of each operation.
-/

namespace ResourcePruner

open Disk (Extends Vacant descend IsListed)

/-- What the backups of a run are seen against: the disk at the beginning, a later one on which the
backup directory was missing or empty, where the project root leads and where the backup path leads,
once it leads anywhere. Neither lies in the other, and the log does not lie among the backups. -/
structure Custody where
  start : Disk
  base : Disk
  settings : IndexSettings
  root : Path
  goal : Path
  directory : Path
  backups : Path
  log : Option Path
  isAbsolute_root : root.isAbsolute = true
  locates_root : base.Locates root goal
  lies_root : base.get? goal.place = some .directory
  isAbsolute_directory : directory.isAbsolute = true
  isDown_directory : ∀ name ∈ directory.parts, IsDown name
  eq_backups : ∀ later found, Extends base later → later.Locates directory found → found = backups
  isAbsolute_log : ∀ path, log = some path → path.isAbsolute = true
  not_below_log : ∀ path later found, log = some path → Extends base later →
    later.Locates path found → ¬ backups.place <+: found.place
  not_inside : ¬ goal.place <+: backups.place
  not_beyond : ¬ backups.place <+: goal.place

namespace Custody

variable (custody : Custody)

/-- A file at the place is a resource itself. -/
def IsWhole (place : Place) : Prop :=
  ∃ stem file, Index.Indexes custody.settings custody.root custody.goal stem file place
    ∧ (stem = Category.directoryStem .layout ∨ stem = Category.directoryStem .drawable)

/-- The log lies at the place. -/
def IsLog (disk : Disk) (place : Place) : Prop :=
  ∃ path found, custody.log = some path ∧ disk.Locates path found ∧ found.place = place

/-- The names lead from the backup path to a file of that content. -/
def IsCopied (disk : Disk) (names : List Text) (content : Bytes) : Prop :=
  disk.get? (custody.backups.place ++ names) = some (.file content)
    ∧ disk.read (descend custody.directory names) = .ok content

/-- What is true of the disk at any time. -/
structure Holds (disk : Disk) : Prop where
  extends_base : Extends custody.base disk
  vacant : Vacant custody.base custody.directory disk
  /-- Every directory among the backups is there for one of the project. -/
  mirrors : Disk.IsLookedUp custody.directory → disk.Locates custody.directory custody.backups →
    disk.get? custody.backups.place = some .directory → ∀ names, names ≠ [] →
    disk.get? (custody.backups.place ++ names) = some .directory →
    disk.get? (custody.goal.place ++ names) = some .directory
  /-- No file that is a resource itself has been changed. -/
  intact : ∀ place content, custody.IsWhole place → ¬ custody.IsLog disk place →
    disk.get? place = some (.file content) → custody.start.get? place = some (.file content)
  kept : ∀ names content, custody.start.get? (custody.goal.place ++ names) = some (.file content) →
    (∃ now, disk.get? (custody.goal.place ++ names) = some (.file now))
      ∨ custody.IsWhole (custody.goal.place ++ names) ∧ custody.IsCopied disk names content

variable {custody} {disk more : Disk} {place : Place} {names : List Text} {content : Bytes}

theorem IsLog.mono (hlog : custody.IsLog disk place) (hstays : Extends disk more) :
    custody.IsLog more place := by
  obtain ⟨path, found, hpath, hfound, rfl⟩ := hlog
  exact ⟨path, found, hpath, hfound.mono hstays, rfl⟩

theorem IsWhole.isPrefix (hwhole : custody.IsWhole place) : custody.goal.place <+: place := by
  obtain ⟨stem, file, ⟨⟨dirs, names, -, -, -, rfl, -⟩, -⟩, -⟩ := hwhole
  exact List.prefix_append _ _

/-- What is a resource itself lies at least three names deep. -/
theorem IsWhole.length_le (hwhole : custody.IsWhole (custody.goal.place ++ names)) :
    3 ≤ names.length := by
  obtain ⟨stem, file, ⟨⟨dirs, inner, hdir, hwalked, -, hplace, -⟩, -⟩, -⟩ := hwhole
  obtain rfl := List.append_cancel_left hplace
  obtain ⟨way, last, rfl, -⟩ := hdir
  obtain ⟨way', name, rfl, -⟩ := hwalked
  simp only [List.length_append, List.length_cons, List.length_nil]
  omega

theorem isAbsolute_descend (custody : Custody) (names : List Text) :
    (descend custody.directory names).isAbsolute = true :=
  custody.isAbsolute_directory

/-- What lies among the backups does not lie in the project. -/
theorem ne_of_isPrefix (custody : Custody) (hplace : custody.goal.place <+: place)
    (names : List Text) : custody.backups.place ++ names ≠ place := by
  rintro rfl
  rcases List.prefix_or_prefix_of_prefix hplace (List.prefix_append _ _) with h | h
  · exact custody.not_inside h
  · exact custody.not_beyond h

namespace Holds

/-- Names behind the backup path lead to what they spell. -/
theorem eq_descend (hholds : custody.Holds disk) (hnames : ∀ name ∈ names, IsDown name)
    (hne : names ≠ []) (hlooked : Disk.IsLookedUp (descend custody.directory names)) {found : Path}
    (hfound : disk.Locates (descend custody.directory names) found) :
    disk.Locates custody.directory custody.backups
      ∧ disk.get? custody.backups.place = some .directory
      ∧ found = descend custody.backups names := by
  obtain ⟨middle, hdirectory, hlies, rfl⟩ := hholds.vacant.exists_eq_descend hholds.extends_base
    (hlooked.of_descend custody.isAbsolute_directory) hnames hne hfound
  obtain rfl := custody.eq_backups disk middle hholds.extends_base hdirectory
  exact ⟨hdirectory, hlies, rfl⟩

theorem isCopied_of_get? (hholds : custody.Holds disk) (hstays : Extends disk more)
    (hcopied : custody.IsCopied disk names content)
    (hsame : more.get? (custody.backups.place ++ names)
      = disk.get? (custody.backups.place ++ names)) :
    custody.IsCopied more names content := by
  obtain ⟨hlies, hread⟩ := hcopied
  obtain ⟨hlooked, found, hfound, hfile⟩ :=
    Disk.locates_of_read (custody.isAbsolute_descend names) hread
  have hlisted := Disk.isListed_of_get? hlies
  refine ⟨hsame.trans hlies, Disk.read_of_locates (custody.isAbsolute_descend names)
    hlooked (hfound.mono hstays) ?_⟩
  by_cases hne : names = []
  · -- The backup path itself would lead to the file.
    subst hne
    obtain rfl :=
      custody.eq_backups disk found hholds.extends_base (by simpa [descend] using hfound)
    rw [List.append_nil] at hsame
    rw [hsame, hfile]
  · obtain ⟨-, -, rfl⟩ := hholds.eq_descend (fun name hname => (hlisted name hname).1) hne hlooked
      hfound
    rw [Disk.place_descend _ hlisted] at hfile ⊢
    rw [hsame, hfile]

/-- A change at a single place. -/
theorem of_except (hholds : custody.Holds disk) (hstays : Extends disk more)
    (hvacant : Vacant custody.base custody.directory more)
    (hother : ∀ other, other ≠ place → more.get? other = disk.get? other)
    (hmirrors : Disk.IsLookedUp custody.directory → more.Locates custody.directory custody.backups →
      more.get? custody.backups.place = some .directory → ∀ names, names ≠ [] →
      more.get? (custody.backups.place ++ names) = some .directory →
      more.get? (custody.goal.place ++ names) = some .directory)
    (hintact : ∀ content, custody.IsWhole place → ¬ custody.IsLog disk place →
      more.get? place = some (.file content) → custody.start.get? place = some (.file content))
    (hkept : ∀ names content, custody.goal.place ++ names = place →
      custody.start.get? place = some (.file content) →
      (∃ now, more.get? place = some (.file now))
        ∨ custody.IsWhole place ∧ custody.IsCopied more names content)
    (hcopies : ∀ names content, custody.backups.place ++ names = place →
      custody.IsWhole (custody.goal.place ++ names) → custody.IsCopied disk names content →
      ∃ now, more.get? (custody.goal.place ++ names) = some (.file now)) :
    custody.Holds more := by
  refine ⟨hholds.extends_base.trans hstays, hvacant, hmirrors,
    fun other content hwhole hlog hfile => ?_, fun names content hfile => ?_⟩
  · have hlog' : ¬ custody.IsLog disk other := fun h => hlog (h.mono hstays)
    by_cases hsame : other = place
    · subst hsame
      exact hintact content hwhole hlog' hfile
    · rw [hother other hsame] at hfile
      exact hholds.intact other content hwhole hlog' hfile
  · by_cases hsame : custody.goal.place ++ names = place
    · subst hsame
      exact hkept names content rfl hfile
    · rcases hholds.kept names content hfile with ⟨now, hnow⟩ | ⟨hwhole, hcopied⟩
      · exact .inl ⟨now, by rwa [hother _ hsame]⟩
      · by_cases hcopy : custody.backups.place ++ names = place
        · exact .inl (hcopies names content hcopy hwhole hcopied)
        · exact .inr ⟨hwhole, hholds.isCopied_of_get? hstays hcopied (hother _ hcopy)⟩

/-- It makes no difference to the directories what becomes of files. -/
theorem mirrors_of_back (hholds : custody.Holds disk) (hstays : Extends disk more)
    (hback : Extends more disk) (hlooked : Disk.IsLookedUp custody.directory)
    (hdirectory : more.Locates custody.directory custody.backups)
    (hlies : more.get? custody.backups.place = some .directory) (hnames : names ≠ [])
    (hbelow : more.get? (custody.backups.place ++ names) = some .directory) :
    more.get? (custody.goal.place ++ names) = some .directory :=
  hstays.directory _
    (hholds.mirrors hlooked (hdirectory.mono hback) (hback.directory _ hlies) names hnames
    (hback.directory _ hbelow))

/-- A file is written elsewhere than among the backups, and in place of a resource only if the log
lies there. -/
theorem of_file (hholds : custody.Holds disk) (hstays : Extends disk more)
    (hback : Extends more disk)
    (hother : ∀ other, other ≠ place → more.get? other = disk.get? other)
    (hnew : more.get? place = some (.file content)) (houtside : ¬ custody.backups.place <+: place)
    (hwhole : custody.IsWhole place → custody.IsLog disk place) : custody.Holds more := by
  refine hholds.of_except hstays (hholds.vacant.mono hback) hother
    (fun hlooked hdirectory hlies names =>
      hholds.mirrors_of_back hstays hback hlooked hdirectory hlies)
    (fun _ h hnot _ => absurd (hwhole h) hnot) (fun _ _ _ _ => .inl ⟨content, hnew⟩) ?_
  rintro names _ rfl
  exact absurd (List.prefix_append _ _) houtside

/-- A file is written among the backups, and in place of a copy only while the file itself is still
there. -/
theorem of_copy (hholds : custody.Holds disk) (hstays : Extends disk more)
    (hback : Extends more disk)
    (hother : ∀ other, other ≠ custody.backups.place ++ names → more.get? other = disk.get? other)
    (hthere : custody.IsWhole (custody.goal.place ++ names) →
      ∃ now, disk.get? (custody.goal.place ++ names) = some (.file now)) : custody.Holds more := by
  refine hholds.of_except hstays (hholds.vacant.mono hback) hother
    (fun hlooked hdirectory hlies names =>
      hholds.mirrors_of_back hstays hback hlooked hdirectory hlies)
    (fun _ hwhole => absurd rfl (custody.ne_of_isPrefix hwhole.isPrefix names))
    (fun inner _ heq => absurd heq.symm (custody.ne_of_isPrefix (List.prefix_append _ inner) names))
    fun inner _ heq hwhole _ => ?_
  obtain rfl := List.append_cancel_left heq
  obtain ⟨now, hnow⟩ := hthere hwhole
  exact ⟨now, by rwa [hother _ (custody.ne_of_isPrefix (List.prefix_append _ _) inner).symm]⟩

/-- A file that has been copied is deleted. -/
theorem of_remove (hholds : custody.Holds disk) {now : Bytes}
    (hfile : disk.get? (custody.goal.place ++ names) = some (.file now))
    (hwhole : custody.IsWhole (custody.goal.place ++ names))
    (hlog : ¬ custody.IsLog disk (custody.goal.place ++ names))
    (hcopied : custody.IsCopied disk names now) :
    custody.Holds (disk.remove (custody.goal.place ++ names)) := by
  have hstays := Disk.extends_remove hfile
  have hback := Disk.extends_of_remove hfile
  have hget := Disk.get?_remove_of_file hfile
  have hother : ∀ other, other ≠ custody.goal.place ++ names →
      (disk.remove (custody.goal.place ++ names)).get? other = disk.get? other := by
    intro other hne
    rw [hget, if_neg hne]
  refine hholds.of_except hstays (hholds.vacant.mono hback) hother
    (fun hlooked hdirectory hlies names =>
      hholds.mirrors_of_back hstays hback hlooked hdirectory hlies)
    (fun content _ _ h => ?_) (fun inner content heq hstart => ?_) fun inner _ heq => ?_
  · rw [hget, if_pos rfl] at h
    cases h
  · obtain rfl := List.append_cancel_left heq
    have hsame := hholds.intact _ now hwhole hlog hfile
    rw [hstart] at hsame
    cases hsame
    refine .inr ⟨hwhole, hholds.isCopied_of_get? hstays hcopied ?_⟩
    exact hother _ (custody.ne_of_isPrefix (List.prefix_append _ _) inner)
  · exact absurd heq (custody.ne_of_isPrefix (List.prefix_append _ _) inner)

/-- A directory is made. -/
theorem of_directory (hholds : custody.Holds disk) (hnone : disk.get? place = none)
    (hvacant : Vacant custody.base custody.directory (disk.put place .directory))
    (hmirrors : Disk.IsLookedUp custody.directory →
      (disk.put place .directory).Locates custody.directory custody.backups →
      (disk.put place .directory).get? custody.backups.place = some .directory → ∀ names,
      names ≠ [] →
      (disk.put place .directory).get? (custody.backups.place ++ names) = some .directory →
      (disk.put place .directory).get? (custody.goal.place ++ names) = some .directory) :
    custody.Holds (disk.put place .directory) := by
  rcases Disk.put_cases disk place .directory with hsame | ⟨-, hget⟩
  · rwa [hsame]
  have hstays : Extends disk (disk.put place .directory) :=
    Disk.extends_put_directory hnone
  refine hholds.of_except hstays hvacant (fun other hne => by rw [hget, if_neg hne]) hmirrors
    (fun content _ _ h => ?_) (fun names content heq hstart => ?_)
      fun names content heq _ hcopied => ?_
  · rw [hget, if_pos rfl] at h
    cases h
  · subst heq
    rcases hholds.kept names content hstart with ⟨now, hnow⟩ | ⟨hwhole, hcopied⟩
    · rw [hnone] at hnow
      cases hnow
    · refine .inr ⟨hwhole, hholds.isCopied_of_get? hstays hcopied ?_⟩
      rw [hget, if_neg (custody.ne_of_isPrefix (List.prefix_append _ _) names)]
  · have hlies := hcopied.1
    rw [heq, hnone] at hlies
    cases hlies

end Holds

end Custody

end ResourcePruner
