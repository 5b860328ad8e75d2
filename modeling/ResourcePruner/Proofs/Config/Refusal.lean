import ResourcePruner.CommandLine.Outcome
import ResourcePruner.Proofs.Config.Acceptance
import ResourcePruner.Proofs.Disk.Unlooped

/-!
# Why configurations are refused

The checks of `Config.merge` name faults of their own; all others are paths that the disk does not
resolve (`Config.IsFaultOn`). So a configuration is refused for what the configuration file or the
overrides say, or for a path that no disk can have, unless there is a link that leads back to itself
or relative paths start nowhere (`Config.refusal_of_merge`).
-/

namespace ResourcePruner

namespace Config

open Setting (Fields)

variable {disk : Disk} {projectRoot temporary : Path} {payload : Fields} {overrides : Overrides}

/-- A path that is not resolved is one that the disk does not resolve. -/
def IsFaultOn (disk : Disk) (fault : Fault) : Prop :=
  ∀ reason, fault = .unresolved reason → ∃ path, disk.resolve path = .error reason

/-- Whatever fault there is in place of a result is one on that disk. -/
def FaultsOn {α : Type} (disk : Disk) (result : Except Fault α) : Prop :=
  ∀ fault, result = .error fault → IsFaultOn disk fault

namespace FaultsOn

variable {α β : Type} {table field : Text}

theorem ok (a : α) : FaultsOn disk (.ok a) :=
  nofun

theorem error {fault : Fault} (hfault : ∀ reason, fault ≠ .unresolved reason) :
    FaultsOn (α := α) disk (.error fault) := by
  rintro _ ⟨rfl⟩ reason hreason
  exact absurd hreason (hfault reason)

theorem bind {x : Except Fault α} {f : α → Except Fault β} (hx : FaultsOn disk x)
    (hf : ∀ a, FaultsOn disk (f a)) : FaultsOn disk (x >>= f) := by
  cases x with
  | error fault =>
      rintro _ ⟨rfl⟩
      exact hx fault rfl
  | ok a => exact hf a

theorem map {x : Except Fault α} {f : α → β} (hx : FaultsOn disk x) : FaultsOn disk (x.map f) := by
  cases x with
  | error fault =>
      rintro _ ⟨rfl⟩
      exact hx fault rfl
  | ok a => exact .ok _

theorem mapM {f : α → Except Fault β} (hf : ∀ a, FaultsOn disk (f a)) (list : List α) :
    FaultsOn disk (list.mapM f) := by
  induction list with
  | nil => exact .ok _
  | cons a rest ih =>
      rw [List.mapM_cons]
      exact (hf a).bind fun _ => ih.bind fun _ => .ok _

theorem resolved (path : Path) : FaultsOn disk (resolved disk path) := by
  intro fault hfault reason hreason
  rw [Config.resolved] at hfault
  cases hresolve : disk.resolve path with
  | error reason' =>
      rw [hresolve] at hfault
      cases hfault
      cases hreason
      exact ⟨path, hresolve⟩
  | ok found =>
      rw [hresolve] at hfault
      cases hfault

theorem resolveRoots (roots : List Path) : FaultsOn disk (resolveRoots disk projectRoot roots) :=
  (mapM (fun _ => resolved _) roots).map

theorem sectionOf (name : Text) : FaultsOn disk (sectionOf payload name) := by
  rw [Config.sectionOf]
  split
  · exact .ok _
  · exact .ok _
  · exact .error (by rintro _ ⟨⟩)

theorem nonBlank (setting : Setting) : FaultsOn disk (nonBlank table field setting) := by
  unfold Config.nonBlank
  split
  · split
    · exact .error (by rintro _ ⟨⟩)
    · exact .ok _
  · exact .error (by rintro _ ⟨⟩)

theorem textList (setting : Setting) : FaultsOn disk (textList table field setting) := by
  have hitem : ∀ item, FaultsOn disk (itemText table field item) := by
    intro item
    unfold itemText
    split
    · exact .ok _
    · exact .error (by rintro _ ⟨⟩)
  unfold Config.textList
  split
  · exact mapM hitem _
  · exact .error (by rintro _ ⟨⟩)

theorem extensionList (setting : Setting) : FaultsOn disk (extensionList table field setting) := by
  refine (textList setting).bind fun texts => mapM (fun item => ?_) texts
  rw [extension]
  split
  · exact .ok _
  · exact .error (by rintro _ ⟨⟩)

theorem fieldOr {read : Text → Text → Setting → Except Fault α} {fields : Fields} {absent : α}
    (hread : ∀ setting, FaultsOn disk (read table field setting)) :
    FaultsOn disk (fieldOr read table fields field absent) := by
  rw [Config.fieldOr]
  split
  · exact .ok _
  · exact hread _

theorem read (base : Draft) : FaultsOn disk (Draft.read disk base payload) := by
  unfold Draft.read
  refine (sectionOf _).bind fun projectFields => (sectionOf _).bind fun indexFields =>
    (sectionOf _).bind fun scanFields => ?_
  refine (fieldOr nonBlank).bind fun manifestPath => ?_
  refine (fieldOr fun setting => (nonBlank setting).map).bind fun backupDir => ?_
  refine (fieldOr nonBlank).bind fun resourceDirName => ?_
  refine (fieldOr textList).bind fun skippedDirNames => ?_
  refine (fieldOr textList).bind fun excludedFiles => ?_
  refine (fieldOr extensionList).bind fun imageExtensions => ?_
  refine (fieldOr extensionList).bind fun markupExtensions => ?_
  refine (fieldOr extensionList).bind fun codeExtensions => ?_
  split
  · refine error ?_
    rintro _ ⟨⟩
  · refine (fieldOr fun setting => ?_).bind fun extraRoots => .ok _
    exact (textList setting).bind fun texts => resolveRoots _

theorem finish (draft : Draft) : FaultsOn disk (draft.finish disk overrides) := by
  have hmanifest : FaultsOn disk (draft.manifestWith overrides) := by
    unfold Draft.manifestWith
    split
    · exact .ok _
    · exact nonBlank _
  have hroots : FaultsOn disk (draft.rootsWith disk overrides) := by
    unfold Draft.rootsWith
    split
    · exact .ok _
    · exact resolveRoots _
  rw [finish_eq]
  refine hmanifest.bind fun manifestPath => hroots.bind fun extraRoots =>
    (resolved _).bind fun backupDir => ?_
  simp only
  split
  · refine error ?_
    rintro _ ⟨⟩
  · split
    · refine error ?_
      rintro _ ⟨⟩
    · exact (resolved _).bind fun dataDir => .ok _

end FaultsOn

/-- A configuration is refused for what the configuration file or the overrides say, or for a path
that is not resolved; on a disk on which every link can be followed and relative paths start in a
directory, that is a path that no disk can have. -/
theorem refusal_of_merge {fault : Fault}
    (hmerge : merge disk projectRoot temporary payload overrides = .error fault) :
    CommandLine.isInvalidConfig (.ofConfigFault fault) = true
      ∨ ¬ (disk.IsLoopFree ∧ disk.HasHome)
        ∧ ((∃ path, fault = .unresolved (.linkLoop path)) ∨ fault = .unresolved .noHome) := by
  have hfaults : IsFaultOn disk fault :=
    ((FaultsOn.read (.default projectRoot temporary)).bind FaultsOn.finish) fault hmerge
  have hfollows : ∀ reason, fault = .unresolved reason → disk.IsLoopFree → disk.HasHome →
      ∃ impossible, reason = .impossible impossible := by
    intro reason hreason hfree hhome
    obtain ⟨path, hpath⟩ := hfaults reason hreason
    obtain ⟨_, _, _, _, _, _, hgoal | ⟨_, impossible, himpossible⟩⟩ :=
      Disk.resolve_of_isLoopFree hfree hhome path
    · rw [hgoal] at hpath
      cases hpath
    · rw [himpossible] at hpath
      cases hpath
      exact ⟨impossible, rfl⟩
  cases fault with
  | unresolved reason =>
      cases reason with
      | impossible _ => exact .inl rfl
      | linkLoop path =>
          refine .inr ⟨fun h => ?_, .inl ⟨path, rfl⟩⟩
          obtain ⟨_, himpossible⟩ := hfollows _ rfl h.1 h.2
          cases himpossible
      | noHome =>
          refine .inr ⟨fun h => ?_, .inr rfl⟩
          obtain ⟨_, himpossible⟩ := hfollows _ rfl h.1 h.2
          cases himpossible
  | _ => exact .inl rfl

end Config

end ResourcePruner
