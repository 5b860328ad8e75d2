import ResourcePruner.Proofs.Run.Setup

/-!
# Backups and the trees that are searched

A configuration is accepted only if the backup directory lies outside the project root and neither
the project root nor another root to search lies in it (`Config.close_eq_ok_iff`). That sets it
apart from the project root. From another root it is set apart unless it lies in that root
(`Config.areApart_of_merge`), which no check excludes (`Config.areApart_of_merge_shared`).
-/

namespace ResourcePruner

/-- Neither of two paths is the other one or leads into it. -/
def Path.AreApart (path other : Path) : Prop :=
  path.isWithin other = false ∧ other.isWithin path = false

namespace Config

section

variable {disk : Disk} {overrides : Overrides} {config : Config}

/-- The project root and the backup directory of an accepted configuration are apart. So is every
other root to search from the backup directory, unless that one lies in the root. -/
theorem areApart_of_merge {projectRoot temporary : Path} {payload : Setting.Fields}
    (hmerge : merge disk projectRoot temporary payload overrides = .ok config) :
    config.projectRoot = projectRoot ∧ config.backupDir.AreApart config.projectRoot
      ∧ ∀ root ∈ config.extraRoots, root.isWithin config.backupDir = false
        ∧ (config.backupDir.AreApart root ↔ config.backupDir.isWithin root = false) := by
  obtain ⟨draft, hread, hfinish⟩ := ok_of_bind hmerge
  obtain ⟨manifestPath, extraRoots, -, hclose⟩ := close_of_finish hfinish
  obtain ⟨-, hwithin, hholds, -, hconfig⟩ := close_eq_ok_iff.mp hclose
  obtain ⟨hroot, hextra⟩ := List.forall_mem_cons.mp hholds
  rw [hconfig]
  refine ⟨(paths_of_read hread).1, ⟨hwithin, hroot⟩, ?_⟩
  intro root hmem
  refine ⟨hextra root hmem, And.left, fun hroot => ⟨hroot, hextra root hmem⟩⟩

end

namespace Shared

def root : Path := ⟨.root, ["app"]⟩

def tree : Path := ⟨.root, ["shared"]⟩

def payload : Setting.Fields :=
  [("scan", .table [("extra_roots", .list [.text "../shared"])])]

def overrides : Overrides :=
  { Overrides.none with backupDir := some ⟨.root, ["shared", "bk"]⟩ }

end Shared

/-- Another tree that is searched may hold the backup directory: then backups are searched, too. -/
theorem areApart_of_merge_shared :
    ∃ config, merge (.empty []) Shared.root Shared.root Shared.payload Shared.overrides = .ok config
      ∧ config.backupDir.AreApart config.projectRoot
      ∧ Shared.tree ∈ config.extraRoots ∧ ¬ config.backupDir.AreApart Shared.tree := by
  have hmerged :
      (merge (.empty []) Shared.root Shared.root Shared.payload Shared.overrides).toOption.map
      (fun config => (config.extraRoots, config.backupDir.isWithin Shared.tree))
        = some ([Shared.tree], true) := by
    decide +kernel
  cases hmerge : merge (.empty []) Shared.root Shared.root Shared.payload Shared.overrides with
  | error fault =>
      rw [hmerge] at hmerged
      cases hmerged
  | ok config =>
      rw [hmerge] at hmerged
      obtain ⟨hextra, hwithin⟩ := Prod.mk.inj (Option.some.inj hmerged)
      have hmem : Shared.tree ∈ config.extraRoots := hextra ▸ List.mem_singleton_self _
      obtain ⟨-, hroot, hroots⟩ := areApart_of_merge hmerge
      refine ⟨config, rfl, hroot, hmem, ?_⟩
      rw [(hroots _ hmem).2, hwithin]
      decide

end Config

end ResourcePruner
