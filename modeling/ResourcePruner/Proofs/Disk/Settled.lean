import ResourcePruner.Proofs.Disk.Unlooped

/-!
# Resolved paths are settled

A path is settled if no path on the way to it is a link, nor one that no disk can have
(`Disk.IsSettled`); a settled path is its own resolved path (`Disk.IsSettled.resolve_eq`). Where
every link can be followed, the resolved path of an absolute path is settled
(`Disk.isSettled_of_resolve`), so that there is nothing more in it to resolve.

Without that, the resolved path may hold a link: the names behind a link that leads back to itself
are taken as they are spelled.
-/

namespace ResourcePruner

namespace Disk

/-- From the root on, every path on the way can be spelled and none is a link. -/
inductive IsSettled (disk : Disk) : Path → Prop
  | root : IsSettled disk rootPath
  | child {path : Path} (hsettled : IsSettled disk path) {name : Text} (hname : IsDown name)
      (hspelling : IsSpellable (path.child name).text)
      (hentry : ∀ target, disk.get? (path.child name).place ≠ some (.link target)) :
      IsSettled disk (path.child name)

variable {disk : Disk} {path start found : Path} {names : List Text}
  {expand : (link start : Path) → List Text → Resolution}

namespace IsSettled

theorem spells (hsettled : disk.IsSettled path) : disk.Spells path path := by
  induction hsettled with
  | root => exact .root
  | child _ hname _ _ ih => exact ih.child hname

theorem stepBack (hsettled : disk.IsSettled path) : disk.IsSettled (stepBack path) := by
  have hanchor : path.anchor = .root := hsettled.spells.isPlain.1
  rw [Disk.stepBack, if_neg (by simp [hanchor])]
  cases hsettled with
  | root => exact .root
  | child hsettled => exact (Path.parent_child ..).symm ▸ hsettled

theorem linkStart (hsettled : disk.IsSettled path) (target : Text) :
    disk.IsSettled (linkStart path target) := by
  unfold Disk.linkStart
  split
  · exact .root
  · exact hsettled

/-! ## Resolution comes to settled paths -/

/-- Names lead from a settled path to settled ones, if the targets of links do. -/
theorem of_resolveNames
    (hexpand : ∀ {link start names found}, disk.IsSettled start →
      expand link start names = .reached found → disk.IsSettled found)
    (hsettled : disk.IsSettled path)
    (hreached : disk.resolveNames expand path names = .reached found) :
    disk.IsSettled found := by
  induction names generalizing path with
  | nil =>
      cases hreached
      exact hsettled
  | cons name rest ih =>
      rcases isDown_cases name with hname | rfl | hname
      · rw [resolveNames_cons_stay hname] at hreached
        exact ih hsettled hreached
      · rw [resolveNames_cons_up] at hreached
        exact ih hsettled.stepBack hreached
      · rw [resolveNames, if_neg (by simp [hname.1, hname.2.1]), if_neg hname.2.2] at hreached
        simp only [(hsettled.spells.child hname).entryOf] at hreached
        split at hreached
        · cases hreached
        · split at hreached
          · rename_i inner hinner
            exact ih (hexpand (hsettled.linkStart _) hinner) hreached
          · cases hreached
          · cases hreached
        · rename_i hspelling hentry
          exact ih (hsettled.child hname hspelling hentry) hreached

theorem of_resolveFrom {depth : Nat} {entered : List Path} (hsettled : disk.IsSettled path)
    (hreached : disk.resolveFrom depth entered path names = .reached found) :
    disk.IsSettled found := by
  induction depth generalizing entered path names found with
  | zero => cases hreached
  | succ depth ih =>
      rw [resolveFrom] at hreached
      refine of_resolveNames (fun hstart hlink => ?_) hsettled hreached
      split at hlink
      · cases hlink
      · exact ih hstart hlink

/-! ## Settled paths resolve to themselves -/

/-- The names on the way to a settled path are entered one after another. -/
theorem resolveNames_append (hsettled : disk.IsSettled path) (rest : List Text) :
    disk.resolveNames expand rootPath (path.parts ++ rest)
      = disk.resolveNames expand path rest := by
  induction hsettled generalizing rest with
  | root => rfl
  | @child path hsettled name hname hspelling hentry ih =>
      rw [Path.child, List.append_assoc, ih, List.singleton_append]
      rcases resolveNames_cons_down hsettled.spells hname with ⟨hno, -⟩ | ⟨-, hsame⟩
        | ⟨target, hlink, -⟩
      · exact absurd hspelling hno
      · exact hsame
      · exact absurd hlink (hentry target)

theorem resolve_eq (hsettled : disk.IsSettled path) : disk.resolve path = .ok path := by
  have hreached : ∀ depth, disk.resolveFrom (depth + 1) [] rootPath path.parts = .reached path := by
    intro depth
    rw [resolveFrom, ← List.append_nil path.parts, hsettled.resolveNames_append, resolveNames]
  rw [resolve, if_pos hsettled.spells.isPlain.isAbsolute]
  simp only
  rw [spellingBound, show (⟨.root, []⟩ : Path) = rootPath from rfl, hreached]
  exact hsettled.spells.spelled

end IsSettled

/-- Where every link can be followed, the resolved path of an absolute path is settled. -/
theorem isSettled_of_resolve (hfree : disk.IsLoopFree) (habsolute : path.isAbsolute = true)
    (hresolve : disk.resolve path = .ok found) : disk.IsSettled found := by
  obtain ⟨depth, goal, hfollows⟩ := exists_follows hfree rootPath path.parts
  have hstart : (⟨if path.isAbsolute then .root else .here, []⟩ : Path) = rootPath := by
    rw [if_pos habsolute]
    rfl
  have hbase : disk.Spells ⟨if path.isAbsolute then .root else .here, []⟩ rootPath := by
    rw [hstart]
    exact .root
  have hyields := yields_of_follows hbase hfollows False.elim False.elim
  rw [resolve] at hresolve
  simp only at hresolve
  rcases hyields with ⟨reached, hreached, -⟩ | ⟨-, fault, hfault⟩
  · rw [hreached] at hresolve
    have hspelled : disk.spelled reached = .ok found := hresolve
    rw [hstart] at hreached
    have hsettled := IsSettled.of_resolveFrom .root hreached
    rw [hsettled.spells.spelled] at hspelled
    cases hspelled
    exact hsettled
  · rw [hfault] at hresolve
    cases hresolve

end Disk

end ResourcePruner
