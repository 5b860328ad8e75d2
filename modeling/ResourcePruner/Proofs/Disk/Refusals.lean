import ResourcePruner.Proofs.Disk.Spelling
import ResourcePruner.Proofs.Task.Fails

/-!
# Operations that a disk refuses

An operation on a path that a disk can have fails only because the disk refuses it. Whether a disk
can have a path is asked of its text before any name is looked up, so that it does not depend on
what lies there (`Disk.reach_ne_impossible`); each operation that fails gives the reason for which
its path led nowhere, or one of its own.
-/

namespace ResourcePruner

namespace Disk

open ResourcePruner.Task (FailsAs)

variable {disk more : Disk} {path : Path} {error : Error} {fault : PathFault}

theorem followNames_ne_impossible {ending : Ending} {expand : Place → List Text → Reach}
    (hexpand : ∀ place names, expand place names ≠ .failed (.impossible fault)) (place : Place)
    (names : List Text) :
    disk.followNames ending expand place names ≠ .failed (.impossible fault) := by
  induction names generalizing place with
  | nil => simp [followNames]
  | cons name rest ih =>
      rcases isDown_cases name with hname | rfl | hname
      · rw [followNames_cons_stay hname]
        exact ih place
      · rw [followNames_cons_up]
        exact ih place.dropLast
      · rw [followNames_cons_down hname]
        split
        · simp
        · split
          · unfold reachAbsent
            repeat' split
            all_goals simp
          · exact ih _
          · split <;> simp
          · split
            · simp
            · exact hexpand _ _

theorem reachFrom_ne_impossible (ending : Ending) (links : Nat) (place : Place)
    (names : List Text) :
    disk.reachFrom ending links place names ≠ .failed (.impossible fault) := by
  induction links generalizing place names with
  | zero => exact followNames_ne_impossible (by simp) place names
  | succ links ih => exact followNames_ne_impossible ih place names

/-- A path that is spelled so that a disk can have it is looked up as one. -/
theorem reach_ne_impossible (hparts : AreSpellable path.parts) (ending : Ending) :
    disk.reach ending path ≠ .failed (.impossible fault) := by
  have hfault : pathFault? path.text = none := isSpellable_text_iff.mpr hparts
  rw [reach, hfault]
  simp only
  split
  · simp
  · split
    · exact reachFrom_ne_impossible _ _ _ _
    · simp

/-- The reason for which such a path leads nowhere is one of a disk. -/
theorem isRefusal_of_reach {ending : Ending} {code : ErrorCode} (hparts : AreSpellable path.parts)
    (hfailed : disk.reach ending path = .failed code) (other : Path) :
    (⟨code, other⟩ : Error).isRefusal = true := by
  cases code <;> first | rfl | exact absurd hfailed (reach_ne_impossible hparts ending)

theorem isRefusal_of_read (hparts : AreSpellable path.parts)
    (hread : disk.read path = .error error) :
    error.isRefusal = true := by
  rw [read] at hread
  split at hread <;> cases hread
  · rfl
  · rfl
  · exact isRefusal_of_reach hparts ‹_› path

theorem isRefusal_of_writeWith {content : Option Bytes → Bytes} (hparts : AreSpellable path.parts)
    (hwrite : disk.writeWith path content = .error error) : error.isRefusal = true := by
  rw [writeWith] at hwrite
  split at hwrite <;> cases hwrite
  · rfl
  · exact isRefusal_of_reach hparts ‹_› path

theorem isRefusal_of_unlink (hparts : AreSpellable path.parts)
    (hunlink : disk.unlink path = .error error) :
    error.isRefusal = true := by
  rw [unlink] at hunlink
  split at hunlink <;> cases hunlink
  · rfl
  · rfl
  · exact isRefusal_of_reach hparts ‹_› path

/-- Asking what a path leads to fails only where the path is too long. -/
theorem isRefusal_of_leadsTo {kind : Entry → Bool}
    (hleads : disk.leadsTo kind path = .error error) :
    error.isRefusal = true := by
  rw [leadsTo] at hleads
  split at hleads <;> cases hleads
  rfl

theorem isRefusal_of_copy {source target : Path} (hsource : AreSpellable source.parts)
    (htarget : AreSpellable target.parts) (hcopy : disk.copy source target = .error error) :
    error.isRefusal = true := by
  rw [copy] at hcopy
  cases hread : disk.read source with
  | error refused =>
      rw [hread] at hcopy
      cases hcopy
      exact isRefusal_of_read hsource hread
  | ok content =>
      rw [hread] at hcopy
      cases hwrite : disk.write target content with
      | ok written =>
          simp only [bind, Except.bind, hwrite] at hcopy
          cases hcopy
      | error refused =>
          simp only [bind, Except.bind, hwrite] at hcopy
          split at hcopy <;> cases hcopy
          · rfl
          · exact isRefusal_of_writeWith htarget hwrite

/-! ## Making directories -/

theorem isRefusal_of_makeDirectory (hparts : AreSpellable path.parts)
    (hmake : disk.makeDirectory path = .error error) : error.isRefusal = true := by
  rw [makeDirectory] at hmake
  split at hmake <;> cases hmake
  · rfl
  · exact isRefusal_of_reach hparts ‹_› path

theorem isRefusal_of_ensureDirectory (hparts : AreSpellable path.parts)
    (hensure : disk.ensureDirectory path = .error error) : error.isRefusal = true := by
  rw [ensureDirectory] at hensure
  split at hensure
  · cases hensure
  · rename_i refused hmake
    have hrefusal := isRefusal_of_makeDirectory hparts hmake
    cases hthere : disk.leadsTo isDirectoryEntry path with
    | error unasked =>
        rw [hthere] at hensure
        cases hensure
        exact isRefusal_of_leadsTo hthere
    | ok isThere =>
        rw [hthere] at hensure
        change (if _ then _ else _) = _ at hensure
        split at hensure <;> cases hensure
        exact hrefusal

/-- Directories above a path are spelled with some of its parts, so that making all of them is
refused if it fails. -/
theorem fails_makeDirectories (hparts : AreSpellable path.parts) :
    FailsAs (fun error _ => error.isRefusal = true) (makeDirectories path) disk := by
  have hchange : ∀ {upper : Path} {disk : Disk}, AreSpellable upper.parts →
      FailsAs (fun error _ => error.isRefusal = true) (change (·.ensureDirectory upper)) disk := by
    intro upper disk hupper error more hexec
    rw [exec_change] at hexec
    cases hensure : disk.ensureDirectory upper with
    | ok made =>
        rw [hensure] at hexec
        cases hexec
    | error refused =>
        rw [hensure] at hexec
        cases hexec
        exact isRefusal_of_ensureDirectory hupper hensure
  have hlevels : ∀ levels, ∀ {upper : Path} {disk : Disk}, AreSpellable upper.parts →
      FailsAs (fun error _ => error.isRefusal = true) (makeDirectoriesUpTo levels upper) disk := by
    intro levels
    induction levels with
    | zero => exact hchange
    | succ levels ih =>
        intro upper disk hupper
        refine FailsAs.get_bind ?_
        cases hensure : disk.ensureDirectory upper with
        | ok made => exact fun error more hexec => by cases hexec
        | error refused =>
            refine .ite (fun _ => ?_) fun _ => .throw (isRefusal_of_ensureDirectory hupper hensure)
            exact (ih (areSpellable_parent hupper)).bind fun _ _ _ => hchange hupper
  exact hlevels _ hparts

end Disk

end ResourcePruner
