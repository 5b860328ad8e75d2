import ResourcePruner.Proofs.Disk.Changes

/-!
# Writing and reading by one path

What is written to a file is read again by the path to which it was written. That holds of any path,
also of a relative one or one through links, that leads to a file (`Disk.exists_writeWith_of_read`)
or to where one can be made (`Disk.exists_writeWith_of_vacant`): a new content of a file takes no
path elsewhere (`Disk.Attains.put`).
-/

namespace ResourcePruner

namespace Disk

variable {disk : Disk} {path goal : Path} {place : Place}

/-! ## Writing to where a path leads -/

/-- A path leads where it led, also when there is a new file. -/
theorem Attains.put (hattains : disk.Attains path goal) (hend : IsEnd (disk.get? place))
    (content : Bytes) : (disk.put place (.file content)).Attains path goal :=
  hattains.mono (extends_put hend nofun) (startOf_put ..)

/-- A file that is read can be written by the same path, and what is written is read again. -/
theorem exists_writeWith_of_read {old : Bytes} (hstarts : disk.StartsInDirectory path)
    (hread : disk.read path = .ok old) (content : Option Bytes → Bytes) :
    ∃ more, disk.writeWith path content = .ok more ∧ more.read path = .ok (content (some old))
      ∧ more.StartsInDirectory path := by
  obtain ⟨hlooked, goal, hattains, hfile⟩ := exists_attains_of_read hstarts hread
  have hend : IsEnd (disk.get? goal.place) := hfile ▸ isEnd_file old
  refine ⟨disk.put goal.place (.file (content (some old))), ?_, ?_, hstarts.put hend _⟩
  · rw [writeWith, hattains.reach (by decide) hlooked hfile (by simp)]
  · exact (hattains.put hend _).read hlooked (get?_put_of_file hfile _)

/-- The path leads to nothing, but to where a file can be made. -/
def IsVacant (disk : Disk) (path : Path) : Prop :=
  ∃ directory name, disk.reach .newFile path = .missing directory name
    ∧ disk.accepts (directory ++ [name]) = true

/-- Where a file can be made it can be written, and what is written is read. -/
theorem exists_writeWith_of_vacant (hstarts : disk.StartsInDirectory path)
    (hvacant : disk.IsVacant path) (content : Option Bytes → Bytes) :
    ∃ more, disk.writeWith path content = .ok more ∧ more.read path = .ok (content none)
      ∧ more.StartsInDirectory path := by
  obtain ⟨directory, name, hmissing, haccepts⟩ := hvacant
  obtain ⟨hlooked, goal, hattains, hplace, hnone⟩ := exists_attains_of_missing hstarts hmissing
  rw [← hplace] at haccepts hnone
  refine ⟨disk.put goal.place (.file (content none)), ?_, ?_, hstarts.put (hnone ▸ isEnd_none) _⟩
  · rw [writeWith, hmissing, hplace]
  · refine (hattains.put (hnone ▸ isEnd_none) _).read hlooked ?_
    rw [get?_put disk goal.place goal.place _ haccepts, if_pos rfl]

/-! ## Whether a file is there -/

theorem isPresent_of_read {content : Bytes} (hread : disk.read path = .ok content) :
    disk.isPresent path = .ok true := by
  rw [Disk.read] at hread
  split at hread
  · rename_i hfound
    rw [isPresent, leadsTo, hfound]
  · cases hread
  · cases hread
  · cases hread

/-- What is missing where a file is to be made is missing where one is looked for. -/
theorem followNames_of_missing {expand expand' : Place → List Text → Reach} {directory : Place}
    {name : Text}
    (hexpand : ∀ place names, expand place names = .missing directory name →
      expand' place names = .missing directory name) {names : List Text}
    (hmissing : disk.followNames .newFile expand place names = .missing directory name) :
    disk.followNames .target expand' place names = .missing directory name := by
  induction names generalizing place with
  | nil => cases hmissing
  | cons first rest ih =>
      rcases isDown_cases first with hname | rfl | hname
      · rw [followNames_cons_stay hname] at hmissing ⊢
        exact ih hmissing
      · rw [followNames_cons_up] at hmissing ⊢
        exact ih hmissing
      · rw [followNames_cons_down hname] at hmissing ⊢
        split at hmissing
        · cases hmissing
        · rw [if_neg (by simp)]
          split at hmissing
          · exact hmissing
          · exact ih hmissing
          · split at hmissing <;> cases hmissing
          · simp only [reduceCtorEq, decide_false, Bool.and_false, Bool.false_eq_true, if_false]
              at hmissing ⊢
            exact hexpand _ _ hmissing

theorem isPresent_of_vacant (hvacant : disk.IsVacant path) : disk.isPresent path = .ok false := by
  obtain ⟨directory, name, hmissing, -⟩ := hvacant
  have hfrom : ∀ links place names,
      disk.reachFrom .newFile links place names = .missing directory name →
      disk.reachFrom .target links place names = .missing directory name := by
    intro links
    induction links with
    | zero =>
        intro place names
        exact followNames_of_missing fun _ _ h => by cases h
    | succ links ih => exact fun place names => followNames_of_missing ih
  obtain ⟨hlooked, start, hstart, hmissing⟩ := reach_cases hmissing nofun
  rw [isPresent, leadsTo, reach_of_reachFrom hlooked hstart, hfrom _ _ _ hmissing]

end Disk

end ResourcePruner
