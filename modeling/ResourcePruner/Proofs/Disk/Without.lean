import ResourcePruner.Proofs.Disk.Changes
import ResourcePruner.Proofs.Disk.Resolve

/-!
# Disks with less on them

Where names lead on a disk from which a directory was removed, they led before
(`Disk.Leads.of_without`), and so they did where anything still lies at their end
(`Disk.Leads.of_less`). The links alone decide where names lead, if they lead anywhere
(`Disk.Leads.unique_of_links`).
-/

namespace ResourcePruner

namespace Disk

variable {disk less more : Disk} {n m : Nat} {path goal other : Path} {names : List Text}

/-- The disk without what lies at the place and below it. -/
def Without (place : Place) (disk less : Disk) : Prop :=
  ∀ other, less.get? other = if other ≠ [] ∧ place <+: other then none else disk.get? other

theorem without_remove (disk : Disk) (place : Place) : Without place disk (disk.remove place) := by
  intro other
  rw [get?_remove]
  by_cases hroot : other = []
  · simp [hroot, get?]
  · simp [hroot]

theorem Without.get? {place other : Place} (hwithout : Without place disk less)
    (hother : ¬ place <+: other) : less.get? other = disk.get? other := by
  rw [hwithout, if_neg fun h => hother h.2]

/-- What is left was there before. -/
theorem Without.get?_eq_some {place other : Place} {entry : Entry}
    (hwithout : Without place disk less) (hlies : less.get? other = some entry) :
    disk.get? other = some entry := by
  rw [hwithout] at hlies
  split at hlies
  · cases hlies
  · exact hlies

namespace Leads

/-- The links decide where names lead. -/
theorem unique_of_links
    (hlinks : ∀ place target,
      disk.get? place = some (.link target) ↔ more.get? place = some (.link target))
    (hleads : Leads disk n path names goal) (hother : Leads more m path names other) :
    n = m ∧ goal = other := by
  induction hleads generalizing m other with
  | done path =>
      obtain ⟨rfl, rfl⟩ := hother.of_nil
      exact ⟨rfl, rfl⟩
  | stay hname _ ih => exact ih (hother.of_stay hname)
  | up _ ih => exact ih hother.of_up
  | enter hname hentry hrest ih =>
      cases hother with
      | stay hstay => exact absurd hname (not_isDown_stay hstay)
      | up => exact absurd hname not_isDown_up
      | enter _ _ hmore => exact ih hmore
      | last =>
          obtain ⟨rfl, rfl⟩ := hrest.of_nil
          exact ⟨rfl, rfl⟩
      | follow _ hlink =>
          rw [(hlinks _ _).mpr hlink] at hentry
          cases hentry
  | last hname hentry =>
      cases hother with
      | stay hstay => exact absurd hname (not_isDown_stay hstay)
      | up => exact absurd hname not_isDown_up
      | enter _ _ hmore =>
          obtain ⟨rfl, rfl⟩ := hmore.of_nil
          exact ⟨rfl, rfl⟩
      | last => exact ⟨rfl, rfl⟩
      | follow _ hlink => exact absurd ((hlinks _ _).mpr hlink) (hentry.2 _)
  | follow hname hentry _ _ _ iht ihr =>
      obtain ⟨m', k, middle, rfl, htarget, -, hrest⟩ :=
        hother.of_link hname ((hlinks _ _).mp hentry)
      obtain ⟨rfl, rfl⟩ := iht htarget
      obtain ⟨rfl, rfl⟩ := ihr hrest
      exact ⟨rfl, rfl⟩

/-- Names that lead to something on a disk with less on it lead there. -/
theorem of_less
    (hless : ∀ place entry, less.get? place = some entry → disk.get? place = some entry)
    (hleads : Leads less n path names goal) (hgoal : less.get? goal.place ≠ none) :
    Leads disk n path names goal := by
  induction hleads with
  | done path => exact .done path
  | stay hname _ ih => exact .stay hname (ih hgoal)
  | up _ ih => exact .up (ih hgoal)
  | enter hname hentry _ ih => exact .enter hname (hless _ _ hentry) (ih hgoal)
  | @last path name hname hentry =>
      obtain ⟨entry, hlies⟩ := Option.ne_none_iff_exists'.mp hgoal
      refine .last hname ?_
      rw [hlies] at hentry
      rwa [hless _ _ hlies]
  | follow hname hentry _ hmiddle hrest iht ihr =>
      refine .follow hname (hless _ _ hentry) (iht ?_)
        (hmiddle.imp_right fun h => hless _ _ h) (ihr hgoal)
      rcases hmiddle with rfl | hmiddle
      · obtain ⟨-, rfl⟩ := hrest.of_nil
        exact hgoal
      · rw [hmiddle]
        exact Option.some_ne_none _

/-- Where names lead without a directory, they lead with it. -/
theorem of_without {place : Place} (hplace : place ≠ [])
    (hlies : disk.get? place = some .directory) (hwithout : Without place disk less)
    (hpath : less.get? path.place = some .directory) (hleads : Leads less n path names goal) :
    Leads disk n path names goal := by
  induction hleads with
  | done path => exact .done path
  | stay hname _ ih => exact .stay hname (ih hpath)
  | up _ ih =>
      refine .up (ih ?_)
      rw [Path.place_parent]
      exact get?_dropLast hpath
  | enter hname hentry _ ih => exact .enter hname (hwithout.get?_eq_some hentry) (ih hentry)
  | @last path name hname hentry =>
      by_cases hbelow : place <+: (path.child name).place
      · -- Only the directory itself can lie in one that is left.
        have habove : ¬ place <+: path.place := by
          intro habove
          rw [hwithout] at hpath
          split at hpath
          · cases hpath
          · rename_i hroot
            refine hplace (List.prefix_nil.mp ?_)
            rwa [Classical.not_not.mp fun h => hroot ⟨h, habove⟩] at habove
        have hself : place = (path.child name).place := by
          rw [Path.place_child] at hbelow ⊢
          exact (List.prefix_concat_iff.mp hbelow).resolve_right habove
        exact .enter hname (hself ▸ hlies) (.done _)
      · rw [hwithout.get? hbelow] at hentry
        exact .last hname hentry
  | @follow _ _ path middle goal name target rest hname hentry _ hmiddle hrest iht ihr =>
      refine .follow hname (hwithout.get?_eq_some hentry) (iht (linkStart_directory hpath target))
        (hmiddle.imp_right hwithout.get?_eq_some) ?_
      rcases hmiddle with rfl | hmiddle
      · obtain ⟨rfl, rfl⟩ := hrest.of_nil
        exact .done _
      · exact ihr hmiddle

/-- Where no links lie, names that go down lead to what they spell. -/
theorem eq_descend (hleads : Leads disk n path names goal) (hnames : ∀ name ∈ names, IsDown name)
    (hlinks : ∀ place target, path.place <+: place → disk.get? place ≠ some (.link target)) :
    goal = descend path names := by
  have hnil : ∀ path : Path, path = descend path [] := fun path => by simp [descend]
  have hchild : ∀ (path : Path) name, path.place <+: (path.child name).place := by
    intro path name
    rw [Path.place_child]
    exact List.prefix_append _ _
  induction hleads with
  | done path => exact hnil path
  | stay hname _ _ => exact absurd (hnames _ List.mem_cons_self) (not_isDown_stay hname)
  | up _ _ => exact absurd (hnames _ List.mem_cons_self) not_isDown_up
  | @enter n path goal name rest hname hentry _ ih =>
      rw [descend_cons]
      exact ih (fun d hd => hnames d (List.mem_cons_of_mem _ hd))
        fun place target h => hlinks place target ((hchild path name).trans h)
  | @last path name hname hentry =>
      rw [descend_cons]
      exact hnil _
  | follow hname hentry _ _ _ _ _ => exact absurd hentry (hlinks _ _ (hchild _ _))

/-- The names of a directory lead to it. -/
theorem to_directory (hnames : ∀ name ∈ names, IsDown name)
    (hlies : disk.get? (descend path names).place = some .directory) :
    Leads disk 0 path names (descend path names) := by
  induction names generalizing path with
  | nil =>
      rw [descend_nil]
      exact .done path
  | cons name rest ih =>
      obtain ⟨hname, hrest⟩ := List.forall_mem_cons.mp hnames
      rw [descend_cons] at hlies ⊢
      refine .enter hname ?_ (ih hrest hlies)
      rw [Path.place, descend, List.map_append] at hlies
      by_cases hlast : rest = []
      · rwa [hlast, List.map_nil, List.append_nil] at hlies
      · exact get?_of_append (by simpa using hlast) hlies

end Leads

/-- A plain path that names a directory leads to it. -/
theorem Locates.of_directory (hplain : path.IsPlain)
    (hlies : disk.get? path.place = some .directory) : disk.Locates path path := by
  have hself : Disk.descend rootPath path.parts = path := by
    obtain ⟨anchor, parts⟩ := path
    obtain rfl : anchor = .root := hplain.1
    rfl
  refine ⟨0, Nat.zero_le _, ?_⟩
  have hleads : Leads disk 0 rootPath path.parts (Disk.descend rootPath path.parts) :=
    .to_directory hplain.2 (hself.symm ▸ hlies)
  rwa [hself] at hleads

end Disk

end ResourcePruner
