import ResourcePruner.Proofs.Disk.Without

/-!
# Directories that were missing or empty

`Disk.Vacant` says of a directory that nothing lay below it on an earlier disk. A path that led to
no directory then is vacant, and stays so when directories are made along it (`Disk.Vacant.make`):
the one at its end is either new or was vacant before. It is not enough that the path led nowhere:
with `..` in it, or behind a link, it may come to lead to an old directory once a new one is made.
So the path must go down only, and no directory may be made elsewhere.
-/

namespace ResourcePruner

namespace Disk

/-- Nothing lies below the place. -/
def IsBare (disk : Disk) (place : Place) : Prop :=
  ∀ other, place <+: other → other ≠ place → disk.get? other = none

theorem isBare_of_ne_directory {disk : Disk} {place : Place}
    (hplace : disk.get? place ≠ some .directory) : disk.IsBare place := by
  rintro _ ⟨inner, rfl⟩ hother
  cases hlies : disk.get? (place ++ inner) with
  | none => rfl
  | some entry =>
      have hinner : inner ≠ [] := by
        rintro rfl
        exact hother (List.append_nil place)
      exact absurd (get?_of_append hinner hlies) hplace

/-- Nothing lies below a new entry. -/
theorem isBare_put {disk : Disk} {place : Place} (entry : Entry)
    (hplace : disk.get? place ≠ some .directory) : (disk.put place entry).IsBare place := by
  intro other hbelow hother
  have hnone := isBare_of_ne_directory hplace other hbelow hother
  rcases put_cases disk place entry with hsame | ⟨-, hget⟩
  · rwa [hsame]
  · rwa [hget, if_neg hother]

theorem isBare_of_children {disk : Disk} {place : Place} (hchildren : disk.children place = []) :
    disk.IsBare place := by
  rintro _ ⟨inner, rfl⟩ hother
  cases inner with
  | nil => exact absurd (List.append_nil place) hother
  | cons name rest =>
      have hname : disk.get? (place ++ [name]) = none := by
        cases hlies : disk.get? (place ++ [name]) with
        | none => rfl
        | some entry =>
            have hmem := mem_children.mpr hlies
            rw [hchildren] at hmem
            cases hmem
      have hsplit : place ++ name :: rest = place ++ [name] ++ rest := by simp
      by_cases hrest : rest = []
      · subst hrest
        exact hname
      · have hbare : disk.IsBare (place ++ [name]) := isBare_of_ne_directory (by simp [hname])
        rw [hsplit]
        refine hbare _ (List.prefix_append _ _) fun h => hrest ?_
        exact List.append_cancel_left (h.trans (List.append_nil _).symm)

/-- A path leads to no directory beyond a place below which nothing lies. -/
theorem Locates.eq_of_isBare {disk : Disk} {path upper goal made : Path}
    (hpath : disk.Locates path goal) (hdirectory : disk.get? goal.place = some .directory)
    (hdown : ∀ part ∈ path.parts, IsDown part) (hupper : upper.parts <+: path.parts)
    (hmade : disk.Locates upper made) (hbare : disk.IsBare made.place) : goal = made := by
  obtain ⟨rest, hrest⟩ := hupper
  obtain ⟨k, middle, hmiddle, -, hsecond⟩ := hpath.split hrest
  obtain rfl := hmiddle.unique hmade
  cases rest with
  | nil => exact hsecond.of_nil.2
  | cons name rest =>
      have hname : IsDown name := hdown name (by rw [← hrest]; simp)
      have hempty : disk.get? (middle.child name).place = none := by
        rw [Path.place_child]
        exact hbare _ (List.prefix_append _ _) (by simp)
      obtain ⟨-, -, rfl⟩ := hsecond.of_end hname (hempty ▸ isEnd_none)
      rw [hempty] at hdirectory
      cases hdirectory

/-- No directory has gone but such as held nothing. -/
def LosesBare (base disk : Disk) : Prop :=
  ∀ place, base.get? place = some .directory → disk.get? place = some .directory ∨ base.IsBare place

theorem Extends.losesBare {base disk : Disk} (hstays : Extends base disk) : LosesBare base disk :=
  fun place hlies => .inl (hstays.directory place hlies)

theorem LosesBare.mono {base disk more : Disk} (hloses : LosesBare base disk)
    (hstays : Extends disk more) : LosesBare base more :=
  fun place hlies => (hloses place hlies).imp_left (hstays.directory place)

/-- Where the path leads to a directory now, nothing lay below it on the earlier disk. -/
def Vacant (base : Disk) (path : Path) (disk : Disk) : Prop :=
  IsLookedUp path → ∀ goal, disk.Locates path goal → disk.get? goal.place = some .directory →
    base.IsBare goal.place

/-- The place lies below the directory that the path leads to. -/
def IsBelow (disk : Disk) (path : Path) (place : Place) : Prop :=
  IsLookedUp path ∧ ∃ goal, disk.Locates path goal ∧ disk.get? goal.place = some .directory
    ∧ goal.place <+: place ∧ place ≠ goal.place

theorem IsBelow.mono {disk more : Disk} {path : Path} {place : Place}
    (hbelow : disk.IsBelow path place)
    (hstays : Extends disk more) : more.IsBelow path place := by
  obtain ⟨hlooked, goal, hgoal, hdirectory, hplace, hne⟩ := hbelow
  exact ⟨hlooked, goal, hgoal.mono hstays, hstays.directory _ hdirectory, hplace, hne⟩

namespace Vacant

variable {base disk more : Disk} {path : Path}

/-- It makes no difference what becomes of files. -/
theorem mono (hvacant : Vacant base path disk) (hback : Extends more disk) :
    Vacant base path more :=
  fun hlooked goal hlocates hdirectory =>
    hvacant hlooked goal (hlocates.mono hback) (hback.directory _ hdirectory)

/-- Names behind the path lead to what they spell, if they go down: no link lies there. -/
theorem exists_eq_descend (hvacant : Vacant base path disk) (hbase : Extends base disk)
    (hlooked : IsLookedUp path) {names : List Text} (hnames : ∀ name ∈ names, IsDown name)
    (hne : names ≠ []) {goal : Path} (hlocates : disk.Locates (descend path names) goal) :
    ∃ middle, disk.Locates path middle ∧ disk.get? middle.place = some .directory
      ∧ goal = descend middle names := by
  obtain ⟨k, middle, hpath, hmiddle, hrest⟩ :=
    hlocates.split (show path.parts ++ names = (descend path names).parts from rfl)
  have hmiddle := hmiddle.resolve_left hne
  refine ⟨middle, hpath, hmiddle, hrest.eq_descend hnames fun place target hbelow hlink => ?_⟩
  have hold := (hbase.link place target).mpr hlink
  rw [hvacant hlooked middle hpath hmiddle place hbelow] at hold
  · cases hold
  · rintro rfl
    rw [hmiddle] at hlink
    cases hlink

/-- Names behind the path lead below the directory at its end, if they go down. -/
theorem isBelow (hvacant : Vacant base path disk) (hbase : Extends base disk)
    (hlooked : IsLookedUp path) {names : List Text} (hnames : ∀ name ∈ names, IsDown name)
    (hne : names ≠ []) {goal : Path} (hlocates : disk.Locates (descend path names) goal) :
    disk.IsBelow path goal.place := by
  obtain ⟨middle, hpath, hmiddle, rfl⟩ :=
    hvacant.exists_eq_descend hbase hlooked hnames hne hlocates
  have hplace : (descend middle names).place = middle.place ++ names.map Utf8.canonicalName :=
    List.map_append
  refine ⟨hlooked, middle, hpath, hmiddle, hplace ▸ List.prefix_append _ _, fun heq => hne ?_⟩
  exact List.map_eq_nil_iff.mp (List.append_cancel_left ((hplace.symm.trans heq).trans
    (List.append_nil _).symm))

/-- Making a directory on the way to the path or below it leaves it vacant. -/
theorem make (hvacant : Vacant base path disk) (hbase : LosesBare base disk)
    (habsolute : path.isAbsolute = true) (hdown : ∀ part ∈ path.parts, IsDown part) {upper : Path}
    (hanchor : upper.anchor = path.anchor)
    (hupper : upper.parts <+: path.parts ∨ path.parts <+: upper.parts)
    (hmake : disk.makeDirectory upper = .ok more) : Vacant base path more := by
  have habsolute' : upper.isAbsolute = true := by
    rw [Path.isAbsolute, hanchor]
    exact habsolute
  obtain ⟨made, hmade, hnone, rfl⟩ := makeDirectory_cases habsolute' hmake
  have hstays : Extends disk (disk.put made.place .directory) :=
    extends_put_directory hnone
  intro hlooked goal hlocates hdirectory
  have hbare : base.IsBare made.place := by
    by_cases hlies : base.get? made.place = some .directory
    · exact (hbase _ hlies).resolve_left (by simp [hnone])
    · exact isBare_of_ne_directory hlies
  have hnew : (disk.put made.place .directory).IsBare made.place :=
    isBare_put .directory (by simp [hnone])
  rcases hupper with hupper | ⟨rest, hrest⟩
  · -- The path goes on from the new directory, in which nothing lies yet.
    obtain rfl := hlocates.eq_of_isBare hdirectory hdown hupper (hmade.mono hstays) hnew
    exact hbare
  · -- The path led to a directory before.
    obtain ⟨k, middle, hpath, hmiddle, hsecond⟩ := hmade.split hrest
    obtain rfl := (hpath.mono hstays).unique hlocates
    rcases hmiddle with rfl | hmiddle
    · obtain ⟨-, rfl⟩ := hsecond.of_nil
      exact hbare
    · exact hvacant hlooked middle hpath hmiddle

end Vacant

end Disk

end ResourcePruner
