import Mathlib.Data.List.Induction
import Mathlib.Data.List.Nodup
import ResourcePruner.Proofs.Config.Refusal
import ResourcePruner.Proofs.Disk.Settled
import ResourcePruner.Proofs.Run.Setup
import ResourcePruner.Proofs.Text.Casing
import ResourcePruner.Usage.Scan

/-!
# Accepted configurations are well-formed

Whatever a configuration file and the overrides say, a configuration that comes of them is
well-formed (`Config.IsMerged.isWellFormed`), and all others are refused
(`Config.isWellFormed_of_merge`). The roots to search are resolved, those of the configuration file
once more together with those of the overrides. Where every link can be followed, that changes
nothing, since there is nothing more in them to resolve (`Config.IsMerged.areRootsOf`).
-/

namespace ResourcePruner

namespace Config

open Setting (Fields)
open Usage (dialectOf?)

/-! ## Lists without repetitions -/

section

variable {α : Type} [BEq α] [LawfulBEq α]

/-- No item is left twice. -/
theorem nodup_eraseDups (list : List α) : list.eraseDups.Nodup := by
  induction list using List.reverseRecOn with
  | nil => exact List.nodup_nil
  | append_singleton list a ih =>
      rw [List.eraseDups_append]
      by_cases ha : a ∈ list
      · simpa [List.removeAll, ha] using ih
      · have hlast : ([a].removeAll list).eraseDups = [a] := by
          simp [List.removeAll, ha, List.eraseDups_cons]
        rw [hlast, ← List.concat_eq_append]
        exact ih.concat (by simpa using ha)

theorem eraseDups_eq_self {list : List α} (hnodup : list.Nodup) : list.eraseDups = list := by
  induction list with
  | nil => rfl
  | cons a rest ih =>
      obtain ⟨ha, hrest⟩ := List.nodup_cons.mp hnodup
      have hfilter : rest.filter (fun b => !b == a) = rest := by
        refine List.filter_eq_self.mpr fun b hb => ?_
        simpa using fun heq : b = a => ha (heq ▸ hb)
      rw [List.eraseDups_cons, hfilter, ih hrest]

/-- Repetitions that have been left out before make no difference. -/
theorem eraseDups_eraseDups_append (list more : List α) :
    (list.eraseDups ++ more).eraseDups = (list ++ more).eraseDups := by
  rw [List.eraseDups_append, List.eraseDups_append, eraseDups_eq_self (nodup_eraseDups list)]
  congr 2
  simp only [List.removeAll]
  refine List.filter_congr fun b _ => ?_
  simp

end

/-! ## Well-formed configurations -/

/-- The text is an extension in small letters. -/
def IsSmallExtension (text : Text) : Prop :=
  IsExtension text ∧ Text.lower text = text

instance (text : Text) : Decidable (IsExtension text) :=
  inferInstanceAs (Decidable (_ ∧ _))

instance (text : Text) : Decidable (IsSmallExtension text) :=
  inferInstanceAs (Decidable (_ ∧ _))

/-- Extensions are in small letters, and each of them that files are told apart by stands for one
dialect; the manifest has a name; every root to search is a resolved path and is there once; and the
directories that are not entered for declarations are those not entered for references. -/
structure IsWellFormed (disk : Disk) (config : Config) : Prop where
  imageExtensions : ∀ extension ∈ config.index.imageExtensions, IsSmallExtension extension
  markupExtensions : ∀ extension ∈ config.scan.markupExtensions, IsSmallExtension extension
  codeExtensions : ∀ extension ∈ config.scan.codeExtensions, IsSmallExtension extension
  disjoint : ∀ extension ∈ config.scan.markupExtensions, extension ∉ config.scan.codeExtensions
  isMarkup : ∀ path, dialectOf? config.scan path = some .markup ↔
    Text.lower path.suffix ∈ config.scan.markupExtensions
  isCode : ∀ path, dialectOf? config.scan path = some .code ↔
    Text.lower path.suffix ∈ config.scan.codeExtensions
  isNonBlank : Text.trim config.manifestPath ≠ []
  areAbsolute : AreAbsolute config.extraRoots
  areResolved : ∀ root ∈ config.extraRoots, ∃ path, disk.resolve path = .ok root
  nodup : config.extraRoots.Nodup
  skipsAlike : config.scan.skippedDirNames = config.index.skippedDirNames

section

variable {disk : Disk} {projectRoot temporary : Path} {payload : Fields} {overrides : Overrides}
  {config : Config}

theorem IsExtension.lower {text : Text} (hextension : IsExtension text) :
    IsSmallExtension (Text.lower text) := by
  refine ⟨⟨Text.head?_lower_of_dot hextension.1, ?_⟩, Text.lower_lower text⟩
  exact hextension.2.trans (Text.length_le_lowerAfter false text)

theorem areSmall_of_takes {table field : Text} {absent extensions : List Text}
    (habsent : ∀ extension ∈ absent, IsSmallExtension extension)
    (htakes : Takes payload table field AreExtensions absent extensions) :
    ∀ extension ∈ extensions, IsSmallExtension extension := by
  rw [Takes] at htakes
  split at htakes
  · rw [htakes]
    exact habsent
  · obtain ⟨texts, -, htexts, rfl⟩ := htakes
    intro extension hextension
    obtain ⟨text, htext, rfl⟩ := List.mem_map.mp hextension
    exact (htexts text htext).lower

theorem isNonBlank_of_takes {table field : Text} {absent text : Text}
    (habsent : Text.trim absent ≠ [])
    (htakes : Takes payload table field IsNonBlank absent text) : Text.trim text ≠ [] := by
  rw [Takes] at htakes
  split at htakes
  · rw [htakes]
    exact habsent
  · exact htakes.2

namespace AreRootsOf

variable {paths roots more found : List Path}

theorem nodup (hroots : AreRootsOf disk projectRoot paths roots) : roots.Nodup := by
  obtain ⟨found, -, rfl⟩ := hroots
  exact nodup_eraseDups found

/-- Where every link can be followed, the roots have nothing more in them to resolve. -/
theorem resolve_eq (hfree : disk.IsLoopFree) (habsolute : projectRoot.isAbsolute = true)
    (hroots : AreRootsOf disk projectRoot paths roots) : ∀ root ∈ roots,
    disk.resolve root = .ok root := by
  intro root hroot
  obtain ⟨path, -, hresolve⟩ := hroots.exists_resolve hroot
  exact (Disk.isSettled_of_resolve hfree (Path.isAbsolute_join habsolute path) hresolve).resolve_eq

/-- Resolving roots that have nothing more in them to resolve yields them again. -/
theorem eq_of_forall₂ (hresolve : ∀ root ∈ roots, disk.resolve root = .ok root)
    (hfound : List.Forall₂ (fun path root => disk.resolve (projectRoot.join path) = .ok root)
      roots found) :
    found = roots := by
  induction hfound with
  | nil => rfl
  | @cons root again roots found hagain _ ih =>
      obtain ⟨hroot, hrest⟩ := List.forall_mem_cons.mp hresolve
      rw [Path.join, if_pos (Disk.isAbsolute_of_resolve hroot), hroot] at hagain
      rw [ih hrest, Except.ok.inj hagain]

/-- Roots that have nothing more in them to resolve stay, and the others come after them. -/
theorem append (hroots : AreRootsOf disk projectRoot paths roots)
    (hresolve : ∀ root ∈ roots, disk.resolve root = .ok root)
    (hmore : AreRootsOf disk projectRoot (roots ++ more) found) :
    AreRootsOf disk projectRoot (paths ++ more) found := by
  obtain ⟨first, hfirst, rfl⟩ := hroots
  obtain ⟨again, hagain, rfl⟩ := hmore
  have htake := List.forall₂_take first.eraseDups.length hagain
  have hdrop := List.forall₂_drop first.eraseDups.length hagain
  rw [List.take_left] at htake
  rw [List.drop_left] at hdrop
  refine ⟨first ++ again.drop first.eraseDups.length, List.rel_append hfirst hdrop, ?_⟩
  have hagain : again = first.eraseDups ++ again.drop first.eraseDups.length :=
    (List.take_append_drop _ again).symm.trans (congrArg (· ++ _) (eq_of_forall₂ hresolve htake))
  rw [← eraseDups_eraseDups_append]
  exact congrArg List.eraseDups hagain

end AreRootsOf

/-- The extensions of a project that gives none are held to the same. -/
theorem areSmall_default :
    (∀ extension ∈ IndexSettings.default.imageExtensions, IsSmallExtension extension)
      ∧ (∀ extension ∈ ScanSettings.default.markupExtensions, IsSmallExtension extension)
      ∧ ∀ extension ∈ ScanSettings.default.codeExtensions, IsSmallExtension extension := by
  decide +kernel

/-- A file has a dialect just if its extension stands for that dialect. -/
theorem dialectOf?_iff {scan : ScanSettings}
    (hmarkup : ∀ extension ∈ scan.markupExtensions, IsSmallExtension extension)
    (hcode : ∀ extension ∈ scan.codeExtensions, IsSmallExtension extension)
    (hdisjoint : ∀ extension ∈ scan.markupExtensions, extension ∉ scan.codeExtensions)
    (path : Path) :
    (dialectOf? scan path = some .markup ↔ Text.lower path.suffix ∈ scan.markupExtensions)
      ∧ (dialectOf? scan path = some .code ↔ Text.lower path.suffix ∈ scan.codeExtensions) := by
  have hlower : ∀ extensions : List Text, (∀ extension ∈ extensions, IsSmallExtension extension) →
      extensions.map Text.lower = extensions := fun extensions hsmall =>
    (List.map_congr_left fun extension h => (hsmall extension h).2).trans (List.map_id' _)
  rw [dialectOf?, hlower _ hmarkup, hlower _ hcode]
  simp only [List.contains_iff_mem]
  by_cases hmem : Text.lower path.suffix ∈ scan.markupExtensions
  · simp [hmem, hdisjoint _ hmem]
  · simp [hmem]

/-- The roots to search are those of the configuration file and, behind them, those of the
overrides; if there are some, all are resolved together. -/
theorem IsMerged.exists_roots
    (hmerged : IsMerged disk projectRoot temporary payload overrides config) :
    ∃ texts roots, Takes payload "scan" "extra_roots" AreTexts [] texts
      ∧ AreRootsOf disk projectRoot (texts.map Path.ofText) roots
      ∧ if overrides.extraRoots = [] then config.extraRoots = roots
        else AreRootsOf disk projectRoot (roots ++ overrides.extraRoots) config.extraRoots := by
  obtain ⟨draft, hread, hfinished⟩ := hmerged
  have hextra := hfinished.extraRoots
  rw [hread.projectRoot] at hextra
  have htakes := hread.extraRoots
  rw [Takes] at htakes
  simp only [Takes]
  split at htakes
  · exact ⟨[], draft.extraRoots, rfl, ⟨[], .nil, htakes⟩, hextra⟩
  · obtain ⟨texts, htexts, hroots⟩ := htakes
    exact ⟨texts, draft.extraRoots, htexts, hroots, hextra⟩

/-- What comes of the defaults, the configuration file and the overrides is well-formed. -/
theorem IsMerged.isWellFormed
    (hmerged : IsMerged disk projectRoot temporary payload overrides config) :
    config.IsWellFormed disk := by
  have hroots : ∃ paths, AreRootsOf disk projectRoot paths config.extraRoots := by
    obtain ⟨texts, roots, -, hroots, hextra⟩ := hmerged.exists_roots
    split at hextra
    · exact ⟨_, hextra ▸ hroots⟩
    · exact ⟨_, hextra⟩
  obtain ⟨paths, hroots⟩ := hroots
  have hresolved : ∀ root ∈ config.extraRoots, ∃ path, disk.resolve path = .ok root := by
    intro root hroot
    obtain ⟨path, -, hresolve⟩ := hroots.exists_resolve hroot
    exact ⟨_, hresolve⟩
  obtain ⟨draft, hread, hfinished⟩ := hmerged
  obtain ⟨himage, hmarkup, hcode⟩ := areSmall_default
  have himage := areSmall_of_takes himage hread.imageExtensions
  have hmarkup := areSmall_of_takes hmarkup hread.markupExtensions
  have hcode := areSmall_of_takes hcode hread.codeExtensions
  have hdialect := dialectOf?_iff hmarkup hcode hread.disjoint
  have hmanifest : Text.trim config.manifestPath ≠ [] := by
    have hdefault : Text.trim defaultManifestPath ≠ [] := by decide
    rw [hfinished.manifestPath]
    cases hgiven : overrides.manifestPath with
    | none => exact isNonBlank_of_takes hdefault hread.manifestPath
    | some path => exact hfinished.isNonBlank path hgiven
  rw [← hfinished.index] at himage
  rw [← hfinished.scan] at hmarkup hcode hdialect
  exact {
    imageExtensions := himage
    markupExtensions := hmarkup
    codeExtensions := hcode
    disjoint := hfinished.scan ▸ hread.disjoint
    isMarkup := fun path => (hdialect path).1
    isCode := fun path => (hdialect path).2
    isNonBlank := hmanifest
    areAbsolute := fun root hroot => Disk.isAbsolute_of_resolve (hresolved root hroot).choose_spec
    areResolved := hresolved
    nodup := hroots.nodup
    skipsAlike := by rw [hfinished.scan, hfinished.index, hread.skipsAlike] }

/-- Where every link can be followed, the roots to search are what the paths of the configuration
file and, behind them, those of the overrides resolve to, and have nothing more in them to
resolve. -/
theorem IsMerged.areRootsOf (hmerged : IsMerged disk projectRoot temporary payload overrides config)
    (hfree : disk.IsLoopFree) (habsolute : projectRoot.isAbsolute = true) :
    (∀ root ∈ config.extraRoots, disk.resolve root = .ok root)
      ∧ ∃ texts, Takes payload "scan" "extra_roots" AreTexts [] texts
        ∧ AreRootsOf disk projectRoot (texts.map Path.ofText ++ overrides.extraRoots)
          config.extraRoots := by
  obtain ⟨texts, roots, htexts, hroots, hextra⟩ := hmerged.exists_roots
  have hall :
      AreRootsOf disk projectRoot (texts.map Path.ofText ++ overrides.extraRoots)
        config.extraRoots := by
    split at hextra
    · rename_i hnone
      rw [hnone, List.append_nil, hextra]
      exact hroots
    · exact hroots.append (hroots.resolve_eq hfree habsolute) hextra
  exact ⟨hall.resolve_eq hfree habsolute, texts, htexts, hall⟩

end

/-- A configuration is accepted just if it comes of the defaults, the configuration file and the
overrides, and then it is well-formed; where every link can be followed, its roots to search are
what the paths of the configuration file and, behind them, those of the overrides resolve to. All
others are refused, for what the configuration file or the overrides say or for a path that no disk
can have, unless there is a link that leads back to itself or relative paths start nowhere. -/
theorem isWellFormed_of_merge (disk : Disk) {projectRoot : Path}
    (habsolute : projectRoot.isAbsolute = true)
    (temporary : Path) (payload : Fields) (overrides : Overrides) :
    (∀ config, merge disk projectRoot temporary payload overrides = .ok config ↔
        IsMerged disk projectRoot temporary payload overrides config)
      ∧ (∀ config, merge disk projectRoot temporary payload overrides = .ok config →
        config.IsWellFormed disk
          ∧ (disk.IsLoopFree → (∀ root ∈ config.extraRoots, disk.resolve root = .ok root)
            ∧ ∃ texts, Takes payload "scan" "extra_roots" AreTexts [] texts
              ∧ AreRootsOf disk projectRoot (texts.map Path.ofText ++ overrides.extraRoots)
                config.extraRoots))
      ∧ ∀ fault, merge disk projectRoot temporary payload overrides = .error fault →
        CommandLine.isInvalidConfig (.ofConfigFault fault) = true
          ∨ ¬ (disk.IsLoopFree ∧ disk.HasHome)
            ∧ ((∃ path, fault = .unresolved (.linkLoop path)) ∨ fault = .unresolved .noHome) := by
  refine ⟨fun config => merge_eq_ok_iff, fun config hmerge => ?_, fun fault => refusal_of_merge⟩
  have hmerged := merge_eq_ok_iff.mp hmerge
  exact ⟨hmerged.isWellFormed, fun hfree => hmerged.areRootsOf hfree habsolute⟩

namespace Sample

def root : Path := ⟨.root, ["app"]⟩

def temporary : Path := ⟨.root, ["tmp"]⟩

def payload : Fields :=
  [("project", .table [("manifest_path", .text "src/AndroidManifest.xml")]),
    ("scan", .table [("markup_extensions", .list [.text ".XML", .text ".Html"]),
      ("extra_roots", .list [.text "../shared", .text "x/../../shared"])])]

def overrides : Overrides :=
  { Overrides.none with
    backupDir := some ⟨.root, ["bk"]⟩
    extraRoots := [⟨.root, ["lib"]⟩, ⟨.root, ["shared"]⟩] }

def config : Config where
  projectRoot := root
  dataDir := ⟨.root, ["app", ".resprune"]⟩
  backupDir := ⟨.root, ["bk"]⟩
  manifestPath := "src/AndroidManifest.xml"
  index := .default
  scan := { ScanSettings.default with markupExtensions := [".xml", ".html"] }
  extraRoots := [⟨.root, ["shared"]⟩, ⟨.root, ["lib"]⟩]

/-- There is no link to follow. -/
theorem isLoopFree : (Disk.empty []).IsLoopFree := by
  intro place name target hlink
  rw [Disk.get?, if_neg (by simp)] at hlink
  cases hlink

end Sample

theorem isWellFormed_of_merge_sample :
    merge (.empty []) Sample.root Sample.temporary Sample.payload Sample.overrides
      = .ok Sample.config
      ∧ Sample.config.IsWellFormed (.empty [])
      ∧ ∀ root ∈ Sample.config.extraRoots, (Disk.empty []).resolve root = .ok root := by
  have hmerge : merge (.empty []) Sample.root Sample.temporary Sample.payload Sample.overrides
      = .ok Sample.config := by
    decide +kernel
  obtain ⟨-, haccepted, -⟩ :=
    isWellFormed_of_merge (.empty [])
    (rfl : Sample.root.isAbsolute = true) Sample.temporary Sample.payload
      Sample.overrides
  obtain ⟨hwell, hroots⟩ := haccepted _ hmerge
  exact ⟨hmerge, hwell, (hroots Sample.isLoopFree).1⟩

namespace Looped

/-- A link leads to itself. -/
def disk : Disk :=
  ((Disk.empty []).put ["app"] .directory).put ["app", "l"] (.link "l")

def payload : Fields :=
  [("scan", .table [("extra_roots", .list [.text "l"])])]

end Looped

/-- A root to search may be a link that leads back to itself. The configuration is refused, but
neither for what the configuration file says nor for a path that no disk can have. -/
theorem not_isInvalid_of_loop :
    merge Looped.disk Sample.root Sample.temporary Looped.payload .none
        = .error (.unresolved (.linkLoop ⟨.root, ["app", "l"]⟩))
      ∧ CommandLine.isInvalidConfig
        (.ofConfigFault (.unresolved (.linkLoop ⟨.root, ["app", "l"]⟩))) = false := by
  decide +kernel

namespace Detour

/-- A link leads back to itself by a way that is missing, so that a reader does not come to it
again. -/
def disk : Disk :=
  let root := ((Disk.empty []).put ["app"] .directory).put ["other"] .directory
  (root.put ["app", "l"] (.link "missing/../l")).put ["app", "m"] (.link "../other")

def payload : Fields :=
  [("scan", .table [("extra_roots", .list [.text "l/../m"])])]

end Detour

/-- What is taken as it is spelled behind such a link may be a link: then there is more in it to
resolve. -/
example :
    (merge Detour.disk Sample.root Sample.temporary Detour.payload .none).toOption.map extraRoots
        = some [⟨.root, ["app", "m"]⟩]
      ∧ Detour.disk.resolve ⟨.root, ["app", "m"]⟩ = .ok ⟨.root, ["other"]⟩ := by
  decide +kernel

end Config

end ResourcePruner
