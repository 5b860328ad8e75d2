import Mathlib.Data.List.Forall2
import ResourcePruner.Config.Merge

/-!
# Which configurations are accepted

What a configuration file and the overrides have to say for a configuration to come of them, and
which one does: `Config.merge` yields just the configuration that `Config.IsMerged` describes
(`Config.merge_eq_ok_iff`). It is described in the two steps in which it is made. A field of the
draft has the value that the configuration file gives it, or the default (`Draft.IsRead`); a field
of the configuration has the override's, if there is one, and that of the draft otherwise
(`Draft.IsFinished`).

A value of the configuration file is held to what it has to be also where an override stands in its
place.
-/

namespace ResourcePruner

namespace Config

open Setting (Fields)

section

variable {α β : Type} {ε : Type}

/-! ## Results -/

/-- A result that comes of others comes of their values. -/
theorem ok_of_bind {x : Except ε α} {f : α → Except ε β} {b : β} (hok : x >>= f = .ok b) :
    ∃ a, x = .ok a ∧ f a = .ok b := by
  cases x with
  | error e => cases hok
  | ok a => exact ⟨a, rfl, hok⟩

theorem ok_of_mapError {ε' : Type} {x : Except ε α} {f : ε → ε'} {a : α}
    (hok : x.mapError f = .ok a) : x = .ok a := by
  cases x with
  | error e => cases hok
  | ok b =>
      cases hok
      rfl

theorem bind_eq_ok_iff {x : Except ε α} {f : α → Except ε β} {b : β} :
    x >>= f = .ok b ↔ ∃ a, x = .ok a ∧ f a = .ok b := by
  refine ⟨ok_of_bind, fun ⟨a, hx, hf⟩ => ?_⟩
  rw [hx]
  exact hf

theorem map_eq_ok_iff {x : Except ε α} {f : α → β} {b : β} :
    x.map f = .ok b ↔ ∃ a, x = .ok a ∧ f a = b := by
  cases x with
  | error e => exact iff_of_false nofun fun ⟨_, hok, _⟩ => nomatch hok
  | ok a => simp [Except.map]

/-- A computation over a list yields the results of its items. -/
theorem mapM_eq_ok_iff {f : α → Except ε β} {list : List α} {found : List β} :
    list.mapM f = .ok found ↔ List.Forall₂ (fun a b => f a = .ok b) list found := by
  induction list generalizing found with
  | nil =>
      rw [List.mapM_nil, List.forall₂_nil_left_iff]
      exact ⟨fun hpure => (Except.ok.inj hpure).symm, fun hnil => congrArg Except.ok hnil.symm⟩
  | cons a rest ih =>
      rw [List.mapM_cons, bind_eq_ok_iff, List.forall₂_cons_left_iff]
      refine exists_congr fun b => ?_
      rw [bind_eq_ok_iff]
      constructor
      · rintro ⟨hb, others, hothers, hpure⟩
        cases hpure
        exact ⟨others, hb, ih.mp hothers, rfl⟩
      · rintro ⟨others, hb, hothers, rfl⟩
        exact ⟨hb, others, ih.mpr hothers, rfl⟩

/-- What a computation over a list yields comes of its items. -/
theorem exists_of_mem_mapM {f : α → Except ε β} {list : List α} {found : List β}
    (hmap : list.mapM f = .ok found) {b : β} (hb : b ∈ found) : ∃ a ∈ list, f a = .ok b := by
  induction mapM_eq_ok_iff.mp hmap with
  | nil => cases hb
  | @cons a first rest others hfirst hrest ih =>
      rcases List.mem_cons.mp hb with rfl | hb
      · exact ⟨a, List.mem_cons_self, hfirst⟩
      · obtain ⟨a', ha', hb⟩ := ih (mapM_eq_ok_iff.mpr hrest) hb
        exact ⟨a', List.mem_cons_of_mem _ ha', hb⟩

/-- Items that hold to a condition are mapped one by one. -/
theorem forall₂_eq_map_iff {p : α → Prop} {g : α → β} {list : List α} {found : List β} :
    List.Forall₂ (fun a b => p a ∧ b = g a) list found ↔ (∀ a ∈ list, p a)
      ∧ found = list.map g := by
  induction list generalizing found with
  | nil => simp [List.forall₂_nil_left_iff]
  | cons a rest ih =>
      simp only [List.forall₂_cons_left_iff, ih, List.forall_mem_cons, List.map_cons]
      constructor
      · rintro ⟨_, _, ⟨ha, rfl⟩, ⟨hrest, rfl⟩, rfl⟩
        exact ⟨⟨ha, hrest⟩, rfl⟩
      · rintro ⟨⟨ha, hrest⟩, rfl⟩
        exact ⟨_, _, ⟨ha, rfl⟩, ⟨hrest, rfl⟩, rfl⟩

end

/-! ## Values of the configuration file -/

/-- The names of the sections. -/
def sectionNames : List Text :=
  ["project", "index", "scan"]

/-- Every section that is there is a table. -/
def HasTables (payload : Fields) : Prop :=
  ∀ table ∈ sectionNames, ∀ value, Setting.find? table payload = some value →
    ∃ fields, value = .table fields

/-- What a configuration file says in a field of a section. -/
def settingOf? (payload : Fields) (table field : Text) : Option Setting :=
  match Setting.find? table payload with
  | some (.table fields) => Setting.find? field fields
  | _ => none

/-- The value is that text, and there is more in it than blanks. -/
def IsNonBlank (value : Setting) (text : Text) : Prop :=
  value = .text text ∧ Text.trim text ≠ []

/-- The value is the list of those texts. -/
def AreTexts (value : Setting) (texts : List Text) : Prop :=
  value = .list (texts.map .text)

/-- The text begins with a dot and goes on after it. -/
def IsExtension (text : Text) : Prop :=
  text.head? = some '.' ∧ 2 ≤ text.length

/-- The value is a list of extensions, which are those in small letters. -/
def AreExtensions (value : Setting) (extensions : List Text) : Prop :=
  ∃ texts, AreTexts value texts ∧ (∀ text ∈ texts, IsExtension text)
    ∧ extensions = texts.map Text.lower

/-- The value names that path, a relative one being taken from the project root. -/
def IsPathFrom (projectRoot : Path) (value : Setting) (path : Path) : Prop :=
  ∃ text, IsNonBlank value text ∧ path = projectRoot.join (.ofText text)

/-- The roots are what the paths resolve to, each once, relative paths being taken from the project
root. -/
def AreRootsOf (disk : Disk) (projectRoot : Path) (paths roots : List Path) : Prop :=
  ∃ found, List.Forall₂ (fun path root => disk.resolve (projectRoot.join path) = .ok root)
    paths found
    ∧ roots = found.eraseDups

/-- A field has the value that is read off what the configuration file says in it, or the default if
it says nothing there. -/
def Takes {α : Type} (payload : Fields) (table field : Text) (reads : Setting → α → Prop)
    (absent value : α) : Prop :=
  match settingOf? payload table field with
  | none => value = absent
  | some setting => reads setting value

/-- A reader yields just those values that are to be read off what the configuration file says. -/
def Reads {α : Type} (read : Text → Text → Setting → Except Fault α)
    (reads : Setting → α → Prop) : Prop :=
  ∀ table field setting a, read table field setting = .ok a ↔ reads setting a

theorem reads_nonBlank : Reads nonBlank IsNonBlank := by
  intro table field setting text
  rw [IsNonBlank]
  cases setting with
  | text value =>
      rw [nonBlank, Setting.text.injEq]
      split
      · rename_i hblank
        refine iff_of_false nofun ?_
        rintro ⟨rfl, hnonblank⟩
        exact hnonblank hblank
      · rename_i hnonblank
        rw [Except.ok.injEq]
        exact ⟨fun h => ⟨h, h ▸ hnonblank⟩, And.left⟩
  | list items => exact iff_of_false nofun fun h => nomatch h.1
  | table fields => exact iff_of_false nofun fun h => nomatch h.1
  | other => exact iff_of_false nofun fun h => nomatch h.1

theorem reads_textList : Reads textList AreTexts := by
  intro table field setting texts
  rw [AreTexts]
  cases setting with
  | list items =>
      have hitem : ∀ item text, itemText table field item = .ok text ↔ item = .text text := by
        intro item text
        cases item with
        | text value => rw [itemText, Except.ok.injEq, Setting.text.injEq]
        | list items => exact iff_of_false nofun nofun
        | table fields => exact iff_of_false nofun nofun
        | other => exact iff_of_false nofun nofun
      rw [textList, mapM_eq_ok_iff, Setting.list.injEq]
      simp only [hitem]
      rw [← List.forall₂_map_right_iff, List.forall₂_eq_eq_eq]
  | text value => exact iff_of_false nofun nofun
  | table fields => exact iff_of_false nofun nofun
  | other => exact iff_of_false nofun nofun

theorem reads_extensionList : Reads extensionList AreExtensions := by
  intro table field setting extensions
  have hitem : ∀ item text,
      extension table field item = .ok text ↔ IsExtension item ∧ text = Text.lower item := by
    intro item text
    rw [extension, IsExtension]
    split
    · rename_i hextension
      rw [Except.ok.injEq, eq_comm]
      exact ⟨fun htext => ⟨by simpa using hextension, htext⟩, And.right⟩
    · rename_i hextension
      exact iff_of_false nofun fun h => hextension (by simpa using h.1)
  rw [extensionList, bind_eq_ok_iff, AreExtensions]
  refine exists_congr fun texts => ?_
  rw [reads_textList, mapM_eq_ok_iff]
  simp only [hitem, forall₂_eq_map_iff]

theorem reads_path (projectRoot : Path) :
    Reads (fun s f v => (nonBlank s f v).map fun text => projectRoot.join (Path.ofText text))
      (IsPathFrom projectRoot) := by
  intro table field setting path
  rw [map_eq_ok_iff, IsPathFrom]
  refine exists_congr fun text => ?_
  rw [reads_nonBlank, eq_comm (a := path)]

section

variable {disk : Disk} {payload fields : Fields} {table field : Text}

theorem resolved_eq_ok_iff {path found : Path} :
    resolved disk path = .ok found ↔ disk.resolve path = .ok found := by
  refine ⟨ok_of_mapError, fun hok => ?_⟩
  rw [resolved, hok]
  rfl

theorem resolveRoots_eq_ok_iff {projectRoot : Path} {paths roots : List Path} :
    resolveRoots disk projectRoot paths = .ok roots ↔ AreRootsOf disk projectRoot paths roots := by
  rw [resolveRoots, map_eq_ok_iff, AreRootsOf]
  refine exists_congr fun found => ?_
  rw [mapM_eq_ok_iff, eq_comm (a := roots)]
  simp only [resolved_eq_ok_iff]

/-- Every root is what one of the paths resolves to. -/
theorem AreRootsOf.exists_resolve {projectRoot : Path} {paths roots : List Path}
    (hroots : AreRootsOf disk projectRoot paths roots) {root : Path} (hroot : root ∈ roots) :
    ∃ path ∈ paths, disk.resolve (projectRoot.join path) = .ok root := by
  obtain ⟨found, hfound, rfl⟩ := hroots
  exact exists_of_mem_mapM (mapM_eq_ok_iff.mpr hfound) (List.mem_eraseDups.mp hroot)

/-- The value is a list of paths, and the roots are what they resolve to. -/
def AreRoots (disk : Disk) (projectRoot : Path) (value : Setting) (roots : List Path) : Prop :=
  ∃ texts, AreTexts value texts ∧ AreRootsOf disk projectRoot (texts.map Path.ofText) roots

theorem reads_roots (disk : Disk) (projectRoot : Path) :
    Reads (fun s f v => do resolveRoots disk projectRoot ((← textList s f v).map Path.ofText))
      (AreRoots disk projectRoot) := by
  intro table field setting roots
  rw [bind_eq_ok_iff, AreRoots]
  refine exists_congr fun texts => ?_
  rw [reads_textList, resolveRoots_eq_ok_iff]

theorem sectionOf_eq_ok_iff : sectionOf payload table = .ok fields ↔
    Setting.find? table payload = none ∧ fields = []
      ∨ Setting.find? table payload = some (.table fields) := by
  rw [sectionOf]
  cases Setting.find? table payload with
  | none => simp [eq_comm]
  | some value => cases value <;> simp

/-- A section is read just if it is a table or missing. -/
theorem hasTables_iff :
    HasTables payload ↔ ∀ table ∈ sectionNames, ∃ fields, sectionOf payload table = .ok fields := by
  refine forall₂_congr fun table _ => ?_
  simp only [sectionOf_eq_ok_iff]
  cases Setting.find? table payload with
  | none => simp
  | some value => simp

theorem find?_of_sectionOf (hsection : sectionOf payload table = .ok fields) :
    Setting.find? field fields = settingOf? payload table field := by
  rw [settingOf?]
  rcases sectionOf_eq_ok_iff.mp hsection with ⟨hnone, rfl⟩ | hsome
  · rw [hnone]
    rfl
  · rw [hsome]

theorem fieldOr_eq_ok_iff {α : Type} {read : Text → Text → Setting → Except Fault α}
    {reads : Setting → α → Prop} (hread : Reads read reads)
    (hsection : sectionOf payload table = .ok fields) {absent value : α} :
    fieldOr read table fields field absent = .ok value ↔
      Takes payload table field reads absent value := by
  rw [fieldOr, Takes, find?_of_sectionOf hsection]
  cases settingOf? payload table field with
  | none => exact ⟨fun h => (Except.ok.inj h).symm, fun h => congrArg Except.ok h.symm⟩
  | some setting => exact hread table field setting value

end

/-! ## The two steps -/

/-- The draft has what the configuration file says in place of what the base has. -/
structure Draft.IsRead (disk : Disk) (base : Draft) (payload : Fields) (draft : Draft) : Prop where
  hasTables : HasTables payload
  projectRoot : draft.projectRoot = base.projectRoot
  dataDir : draft.dataDir = base.dataDir
  manifestPath :
    Takes payload "project" "manifest_path" IsNonBlank base.manifestPath draft.manifestPath
  backupDir :
    Takes payload "project" "backup_dir" (IsPathFrom base.projectRoot) base.backupDir
      draft.backupDir
  resourceDirName :
    Takes payload "index" "resource_dir_name" IsNonBlank base.index.resourceDirName
      draft.index.resourceDirName
  skippedDirNames :
    Takes payload "index" "skip_dir_names" AreTexts base.index.skippedDirNames
      draft.index.skippedDirNames
  excludedFiles :
    Takes payload "index" "exclude_files" AreTexts base.index.excludedFiles
      draft.index.excludedFiles
  imageExtensions :
    Takes payload "index" "image_extensions" AreExtensions base.index.imageExtensions
      draft.index.imageExtensions
  markupExtensions :
    Takes payload "scan" "markup_extensions" AreExtensions base.scan.markupExtensions
      draft.scan.markupExtensions
  codeExtensions :
    Takes payload "scan" "code_extensions" AreExtensions base.scan.codeExtensions
      draft.scan.codeExtensions
  disjoint : ∀ extension ∈ draft.scan.markupExtensions, extension ∉ draft.scan.codeExtensions
  skipsAlike : draft.scan.skippedDirNames = draft.index.skippedDirNames
  extraRoots :
    Takes payload "scan" "extra_roots" (AreRoots disk base.projectRoot) base.extraRoots
      draft.extraRoots

/-- The configuration has the overrides in place of what the draft has, and its backup directory is
apart from the project root and holds no root to search. -/
structure Draft.IsFinished (disk : Disk) (draft : Draft) (overrides : Overrides) (config : Config) :
    Prop where
  projectRoot : config.projectRoot = draft.projectRoot
  manifestPath : config.manifestPath = overrides.manifestPath.getD draft.manifestPath
  isNonBlank : ∀ path, overrides.manifestPath = some path → Text.trim path ≠ []
  dataDir : disk.resolve (overrides.dataDir.getD draft.dataDir) = .ok config.dataDir
  backupDir : disk.resolve (overrides.backupDir.getD draft.backupDir) = .ok config.backupDir
  index : config.index = draft.index
  scan : config.scan = draft.scan
  extraRoots : if overrides.extraRoots = [] then config.extraRoots = draft.extraRoots
    else AreRootsOf disk draft.projectRoot (draft.extraRoots ++ overrides.extraRoots)
      config.extraRoots
  isOutside : config.backupDir.isWithin config.projectRoot = false
  holdsNone : ∀ root ∈ config.projectRoot :: config.extraRoots,
    root.isWithin config.backupDir = false

/-- The configuration comes of the defaults, the configuration file and the overrides. -/
def IsMerged (disk : Disk) (projectRoot temporary : Path) (payload : Fields) (overrides : Overrides)
    (config : Config) : Prop :=
  ∃ draft, Draft.IsRead disk (.default projectRoot temporary) payload draft
    ∧ draft.IsFinished disk overrides config

variable {disk : Disk} {base draft : Draft} {payload : Fields} {overrides : Overrides}
  {config : Config}

/-- A draft that is read has what the configuration file says in its fields. -/
theorem isRead_of_read (hread : Draft.read disk base payload = .ok draft) :
    Draft.IsRead disk base payload draft := by
  have hroots := reads_roots disk base.projectRoot
  have hpath := reads_path base.projectRoot
  unfold Draft.read at hread
  obtain ⟨projectFields, hproject, hread⟩ := ok_of_bind hread
  obtain ⟨indexFields, hindex, hread⟩ := ok_of_bind hread
  obtain ⟨scanFields, hscan, hread⟩ := ok_of_bind hread
  obtain ⟨manifestPath, hmanifest, hread⟩ := ok_of_bind hread
  obtain ⟨backupDir, hbackup, hread⟩ := ok_of_bind hread
  obtain ⟨resourceDirName, hdirectory, hread⟩ := ok_of_bind hread
  obtain ⟨skippedDirNames, hskipped, hread⟩ := ok_of_bind hread
  obtain ⟨excludedFiles, hexcluded, hread⟩ := ok_of_bind hread
  obtain ⟨imageExtensions, himage, hread⟩ := ok_of_bind hread
  obtain ⟨markupExtensions, hmarkup, hread⟩ := ok_of_bind hread
  obtain ⟨codeExtensions, hcode, hread⟩ := ok_of_bind hread
  split at hread
  · obtain ⟨_, hthrow, -⟩ := ok_of_bind hread
    cases hthrow
  · rename_i hshared
    obtain ⟨extraRoots, hextra, hread⟩ := ok_of_bind hread
    cases hread
    have htables : ∀ table ∈ sectionNames, ∃ fields, sectionOf payload table = .ok fields := by
      refine List.forall_mem_cons.mpr ⟨⟨_, hproject⟩, List.forall_mem_cons.mpr ⟨⟨_, hindex⟩, ?_⟩⟩
      exact List.forall_mem_singleton.mpr ⟨_, hscan⟩
    exact {
      hasTables := hasTables_iff.mpr htables
      projectRoot := rfl
      dataDir := rfl
      manifestPath := (fieldOr_eq_ok_iff reads_nonBlank hproject).mp hmanifest
      backupDir := (fieldOr_eq_ok_iff hpath hproject).mp hbackup
      resourceDirName := (fieldOr_eq_ok_iff reads_nonBlank hindex).mp hdirectory
      skippedDirNames := (fieldOr_eq_ok_iff reads_textList hindex).mp hskipped
      excludedFiles := (fieldOr_eq_ok_iff reads_textList hindex).mp hexcluded
      imageExtensions := (fieldOr_eq_ok_iff reads_extensionList hindex).mp himage
      markupExtensions := (fieldOr_eq_ok_iff reads_extensionList hscan).mp hmarkup
      codeExtensions := (fieldOr_eq_ok_iff reads_extensionList hscan).mp hcode
      disjoint := by simpa using hshared
      skipsAlike := rfl
      extraRoots := (fieldOr_eq_ok_iff hroots hscan).mp hextra }

/-- What the configuration file says is read. -/
theorem read_of_isRead (hread : Draft.IsRead disk base payload draft) :
    Draft.read disk base payload = .ok draft := by
  have hroots := reads_roots disk base.projectRoot
  have hpath := reads_path base.projectRoot
  have htables := hasTables_iff.mp hread.hasTables
  obtain ⟨projectFields, hproject⟩ := htables "project" (by decide)
  obtain ⟨indexFields, hindex⟩ := htables "index" (by decide)
  obtain ⟨scanFields, hscan⟩ := htables "scan" (by decide)
  have hshared : ¬ draft.scan.markupExtensions.any draft.scan.codeExtensions.contains = true := by
    simpa using hread.disjoint
  refine bind_eq_ok_iff.mpr
    ⟨_, hproject, bind_eq_ok_iff.mpr ⟨_, hindex, bind_eq_ok_iff.mpr ⟨_, hscan, ?_⟩⟩⟩
  refine bind_eq_ok_iff.mpr
    ⟨_, (fieldOr_eq_ok_iff reads_nonBlank hproject).mpr hread.manifestPath, ?_⟩
  refine bind_eq_ok_iff.mpr ⟨_, (fieldOr_eq_ok_iff hpath hproject).mpr hread.backupDir, ?_⟩
  refine bind_eq_ok_iff.mpr
    ⟨_, (fieldOr_eq_ok_iff reads_nonBlank hindex).mpr hread.resourceDirName, ?_⟩
  refine bind_eq_ok_iff.mpr
    ⟨_, (fieldOr_eq_ok_iff reads_textList hindex).mpr hread.skippedDirNames, ?_⟩
  refine bind_eq_ok_iff.mpr
    ⟨_, (fieldOr_eq_ok_iff reads_textList hindex).mpr hread.excludedFiles, ?_⟩
  refine bind_eq_ok_iff.mpr
    ⟨_, (fieldOr_eq_ok_iff reads_extensionList hindex).mpr hread.imageExtensions, ?_⟩
  refine bind_eq_ok_iff.mpr
    ⟨_, (fieldOr_eq_ok_iff reads_extensionList hscan).mpr hread.markupExtensions, ?_⟩
  refine bind_eq_ok_iff.mpr
    ⟨_, (fieldOr_eq_ok_iff reads_extensionList hscan).mpr hread.codeExtensions, ?_⟩
  simp only
  rw [if_neg hshared]
  refine bind_eq_ok_iff.mpr ⟨_, (fieldOr_eq_ok_iff hroots hscan).mpr hread.extraRoots, ?_⟩
  obtain ⟨_, _, _, _, ⟨_, _, _, _⟩, ⟨_, _, _⟩, _⟩ := draft
  obtain ⟨-, hroot, hdata, -, -, -, -, -, -, -, -, -, hskips, -⟩ := hread
  simp only at hroot hdata hskips
  rw [← hroot, ← hdata, hskips]
  rfl

theorem read_eq_ok_iff :
    Draft.read disk base payload = .ok draft ↔ Draft.IsRead disk base payload draft :=
  ⟨isRead_of_read, read_of_isRead⟩

/-- The end of `Draft.finish`, where the manifest and the roots to search are known. -/
def Draft.close (disk : Disk) (draft : Draft) (overrides : Overrides) (manifestPath : Text)
    (extraRoots : List Path) : Except Fault Config := do
  let backupDir ← resolved disk (overrides.backupDir.getD draft.backupDir)
  if backupDir.isWithin draft.projectRoot then
    throw .backupInProject
  match (draft.projectRoot :: extraRoots).find? fun root => root.isWithin backupDir with
  | some root => throw (.backupHoldsRoot root)
  | none => pure ()
  let dataDir ← resolved disk (overrides.dataDir.getD draft.dataDir)
  return {
    projectRoot := draft.projectRoot
    dataDir
    backupDir
    manifestPath
    index := draft.index
    scan := draft.scan
    extraRoots }

/-- What a configuration is that is accepted with some manifest and roots to search. -/
theorem close_eq_ok_iff {manifestPath : Text} {extraRoots : List Path} :
    draft.close disk overrides manifestPath extraRoots = .ok config ↔
      resolved disk (overrides.backupDir.getD draft.backupDir) = .ok config.backupDir
        ∧ config.backupDir.isWithin draft.projectRoot = false
        ∧ (∀ root ∈ draft.projectRoot :: extraRoots, root.isWithin config.backupDir = false)
        ∧ resolved disk (overrides.dataDir.getD draft.dataDir) = .ok config.dataDir
        ∧ config = ⟨draft.projectRoot, config.dataDir, config.backupDir, manifestPath, draft.index,
          draft.scan, extraRoots⟩ := by
  unfold Draft.close
  constructor
  · intro hclose
    obtain ⟨backupDir, hbackup, hclose⟩ := ok_of_bind hclose
    by_cases hwithin : backupDir.isWithin draft.projectRoot = true
    · rw [if_pos hwithin] at hclose
      obtain ⟨_, hthrow, -⟩ := ok_of_bind hclose
      cases hthrow
    · rw [if_neg hwithin] at hclose
      simp only at hclose
      split at hclose
      · obtain ⟨_, hthrow, -⟩ := ok_of_bind hclose
        cases hthrow
      · rename_i hnone
        obtain ⟨dataDir, hdata, hclose⟩ := ok_of_bind hclose
        cases hclose
        exact ⟨hbackup, Bool.not_eq_true _ ▸ hwithin, by simpa using hnone, hdata, rfl⟩
  · rintro ⟨hbackup, hwithin, hholds, hdata, hconfig⟩
    have hnone : (draft.projectRoot :: extraRoots).find? (·.isWithin config.backupDir) = none := by
      simpa using hholds
    rw [hbackup, hdata]
    simp only [bind, Except.bind, hwithin, hnone]
    exact congrArg Except.ok hconfig.symm

/-- The manifest of the overrides, which is checked, or that of the draft. -/
def Draft.manifestWith (draft : Draft) (overrides : Overrides) : Except Fault Text :=
  match overrides.manifestPath with
  | none => .ok draft.manifestPath
  | some path => nonBlank "overrides" "manifest_path" (.text path)

/-- The roots of the draft and behind them those of the overrides; if there are some, all are
resolved. -/
def Draft.rootsWith (disk : Disk) (draft : Draft) (overrides : Overrides) :
    Except Fault (List Path) :=
  if overrides.extraRoots.isEmpty then .ok draft.extraRoots
  else resolveRoots disk draft.projectRoot (draft.extraRoots ++ overrides.extraRoots)

theorem finish_eq : draft.finish disk overrides = (do
    let manifestPath ← draft.manifestWith overrides
    let extraRoots ← draft.rootsWith disk overrides
    draft.close disk overrides manifestPath extraRoots) := by
  unfold Draft.finish Draft.manifestWith Draft.rootsWith
  cases overrides.manifestPath <;> cases overrides.extraRoots.isEmpty <;> rfl

theorem manifestWith_eq_ok_iff {text : Text} : draft.manifestWith overrides = .ok text ↔
    text = overrides.manifestPath.getD draft.manifestPath
      ∧ ∀ path, overrides.manifestPath = some path → Text.trim path ≠ [] := by
  rw [Draft.manifestWith]
  cases overrides.manifestPath with
  | none => exact ⟨fun h => ⟨(Except.ok.inj h).symm, nofun⟩, fun h => congrArg Except.ok h.1.symm⟩
  | some path =>
      rw [reads_nonBlank, IsNonBlank, Setting.text.injEq]
      constructor
      · rintro ⟨rfl, hnonblank⟩
        exact ⟨rfl, fun _ hpath => Option.some.inj hpath ▸ hnonblank⟩
      · rintro ⟨rfl, hnonblank⟩
        exact ⟨rfl, hnonblank _ rfl⟩

theorem rootsWith_eq_ok_iff {roots : List Path} : draft.rootsWith disk overrides = .ok roots ↔
    if overrides.extraRoots = [] then roots = draft.extraRoots
    else AreRootsOf disk draft.projectRoot (draft.extraRoots ++ overrides.extraRoots) roots := by
  rw [Draft.rootsWith]
  cases overrides.extraRoots with
  | nil => exact ⟨fun h => (Except.ok.inj h).symm, fun h => congrArg Except.ok h.symm⟩
  | cons root rest => exact resolveRoots_eq_ok_iff

theorem finish_eq_ok_iff :
    draft.finish disk overrides = .ok config ↔ draft.IsFinished disk overrides config := by
  simp only [finish_eq, bind_eq_ok_iff, manifestWith_eq_ok_iff, rootsWith_eq_ok_iff,
    close_eq_ok_iff, resolved_eq_ok_iff]
  constructor
  · rintro ⟨manifestPath, ⟨hmanifest, hnonblank⟩, extraRoots, hroots, hbackup, houtside, hholds,
      hdata, hconfig⟩
    rw [hconfig]
    exact ⟨rfl, hmanifest, hnonblank, hdata, hbackup, rfl, rfl, hroots, houtside, hholds⟩
  · rintro ⟨hroot, hmanifest, hnonblank, hdata, hbackup, hindex, hscan, hroots, houtside, hholds⟩
    rw [hroot] at houtside hholds
    refine ⟨_, ⟨hmanifest, hnonblank⟩, _, hroots, hbackup, houtside, hholds, hdata, ?_⟩
    rw [← hroot, ← hindex, ← hscan]

/-- Just that configuration is yielded that comes of the defaults, the configuration file and the
overrides. -/
theorem merge_eq_ok_iff {projectRoot temporary : Path} :
    merge disk projectRoot temporary payload overrides = .ok config ↔
      IsMerged disk projectRoot temporary payload overrides config := by
  simp only [merge, bind_eq_ok_iff, read_eq_ok_iff, finish_eq_ok_iff, IsMerged]

end Config

end ResourcePruner
