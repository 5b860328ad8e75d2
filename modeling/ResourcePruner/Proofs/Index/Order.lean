import ResourcePruner.Proofs.Disk.Order
import ResourcePruner.Proofs.Index.Build

/-!
# The order of a record's files

Since a walk lists what it takes in order (`Disk.pairwise_preorder`), the files of a record come in
an order that their paths alone decide (`Index.pairwise_build`). Two builds that find the same files
of a resource therefore list them alike (`Index.files_eq_of_has_iff`).
-/

namespace ResourcePruner

/-! ## Declarations in order -/

namespace Catalog

/-- A catalog with files added to the records of resources, one after the other. -/
def declareAll (catalog : Catalog) (found : List (Resource × Path)) : Catalog :=
  found.foldl (fun catalog entry => catalog.declare entry.1 entry.2) catalog

theorem declareAll_append (catalog : Catalog) (found more : List (Resource × Path)) :
    catalog.declareAll (found ++ more) = (catalog.declareAll found).declareAll more :=
  List.foldl_append

/-- Declaring counts no line. -/
theorem uses_declareAll {found : List (Resource × Path)} {c : Catalog}
    (hcatalog : ∀ r record, c.get? r = some record → record.uses = 0) {r : Resource}
    {record : Record}
    (hget : (c.declareAll found).get? r = some record) : record.uses = 0 := by
  induction found generalizing c with
  | nil => exact hcatalog r record hget
  | cons entry rest ih =>
      refine ih (c := c.declare entry.1 entry.2) (fun other record hother => ?_) hget
      rw [get?_declare] at hother
      split at hother
      · cases hother
        have hbefore : ((c.get? entry.1).getD .fresh).uses = 0 := by
          cases hknown : c.get? entry.1 with
          | none => rfl
          | some record => exact hcatalog _ _ hknown
        rw [Record.addFile]
        split <;> exact hbefore
      · exact hcatalog other record hother

/-- Files that are declared in order are listed in order, each once. -/
theorem pairwise_declareAll {P : Path → Path → Prop} {found : List (Resource × Path)}
    (hfound : found.Pairwise fun a b => a.2 = b.2 ∨ P a.2 b.2) {c : Catalog}
    (hcatalog : ∀ r record, c.get? r = some record → record.files.Pairwise P
      ∧ ∀ file ∈ record.files, ∀ entry ∈ found, file = entry.2 ∨ P file entry.2)
    {r : Resource} {record : Record} (hget : (c.declareAll found).get? r = some record) :
    record.files.Pairwise P := by
  induction found generalizing c with
  | nil => exact (hcatalog r record hget).1
  | cons entry rest ih =>
      obtain ⟨hentry, hrest⟩ := List.pairwise_cons.mp hfound
      refine ih hrest (c := c.declare entry.1 entry.2) (fun r' record' hget' => ?_) hget
      have hkeep : ∀ {record}, c.get? r' = some record → record.files.Pairwise P
          ∧ ∀ file ∈ record.files, ∀ other ∈ rest, file = other.2 ∨ P file other.2 := by
        intro record hrecord
        obtain ⟨hsorted, hlater⟩ := hcatalog r' record hrecord
        exact ⟨hsorted, fun file hfile other hother =>
          hlater file hfile other (List.mem_cons_of_mem _ hother)⟩
      rw [get?_declare] at hget'
      split at hget'
      · rename_i hr
        subst hr
        cases hget'
        cases hold : c.get? entry.1 with
        | none =>
            have hfiles : ((none : Option Record).getD .fresh |>.addFile entry.2).files
                = [entry.2] := rfl
            rw [hfiles]
            exact ⟨List.pairwise_singleton _ _, List.forall_mem_singleton.mpr hentry⟩
        | some record =>
            obtain ⟨hsorted, hlater⟩ := hkeep hold
            rw [Option.getD_some, Record.addFile]
            split
            · exact ⟨hsorted, hlater⟩
            · rename_i hnew
              refine ⟨List.pairwise_append.mpr ⟨hsorted, List.pairwise_singleton _ _, ?_⟩, ?_⟩
              · intro file hfile other hother
                obtain rfl := List.mem_singleton.mp hother
                refine ((hcatalog _ _ hold).2 file hfile entry List.mem_cons_self).resolve_left ?_
                rintro rfl
                exact hnew hfile
              · intro file hfile
                rcases List.mem_append.mp hfile with h | h
                · exact hlater file h
                · obtain rfl := List.mem_singleton.mp h
                  exact hentry
      · exact hkeep hget'

end Catalog

namespace Index

open Disk (descend)
open ResourcePruner.Task (Runs)

/-! ## Indexed files in order -/

/-- Where an indexed file lies: the way to the directory of resource directories, the one of those
that it lies in, the way on from there, and its name. -/
structure Spot where
  way : List Text
  inner : Text
  below : List Text
  name : Text

namespace Spot

/-- The names that lead to the file from the project root. -/
def names (settings : IndexSettings) (spot : Spot) : List Text :=
  spot.way ++ [settings.resourceDirName, spot.inner] ++ (spot.below ++ [spot.name])

/-- The way leads through no other directory of resource directories. -/
def IsFirst (settings : IndexSettings) (spot : Spot) : Prop :=
  settings.resourceDirName ∉ spot.way

/-- The order in which the index comes by the files. -/
def Precedes (a b : Spot) : Prop :=
  a.way < b.way ∨ a.way = b.way ∧ (a.inner < b.inner ∨ a.inner = b.inner ∧
    (a.below < b.below ∨ a.below = b.below ∧ a.name < b.name))

theorem Precedes.asymm {a b : Spot} (hless : a.Precedes b) : ¬ b.Precedes a :=
  StrictOrder.asymm_lex
    (StrictOrder.asymm_lex (StrictOrder.asymm_lex StrictOrder.asymm)) hless

theorem names_injective {settings : IndexSettings} {a b : Spot} (ha : a.IsFirst settings)
    (hb : b.IsFirst settings) (heq : a.names settings = b.names settings) : a = b := by
  obtain ⟨way, inner, below, name⟩ := a
  obtain ⟨way', inner', below', name'⟩ := b
  simp only [names, List.append_assoc, List.cons_append, List.nil_append] at heq
  obtain ⟨rfl, hrest⟩ := eq_of_append_cons_eq ha hb heq
  obtain ⟨rfl, hbelow⟩ := List.cons.inj hrest
  obtain ⟨rfl, hname⟩ := List.append_inj' hbelow rfl
  obtain rfl := List.singleton_inj.mp hname
  rfl

end Spot

/-- The index comes by the one file before the other. -/
def Precedes (settings : IndexSettings) (root file file' : Path) : Prop :=
  ∃ a b : Spot, a.IsFirst settings ∧ b.IsFirst settings ∧ file = descend root (a.names settings)
    ∧ file' = descend root (b.names settings) ∧ a.Precedes b

theorem Precedes.asymm {settings : IndexSettings} {root file file' : Path}
    (hless : Precedes settings root file file') : ¬ Precedes settings root file' file := by
  obtain ⟨a, b, ha, hb, rfl, rfl, hless⟩ := hless
  rintro ⟨b', a', hb', ha', hfile', hfile, hmore⟩
  obtain rfl := Spot.names_injective ha ha' (Disk.descend_injective hfile)
  obtain rfl := Spot.names_injective hb hb' (Disk.descend_injective hfile')
  exact hless.asymm hmore

section

variable {settings : IndexSettings} {root : Path} {dirs : List Text} {t t' : Session}
  {c c' : Catalog}

theorem pairwise_definitionDirsIn (disk : Disk) (place : Place) :
    (definitionDirsIn disk settings place).Pairwise fun a b =>
      ∃ n m, a = [settings.resourceDirName, n] ∧ b = [settings.resourceDirName, m] ∧ n < m := by
  rw [definitionDirsIn, List.pairwise_flatMap]
  refine ⟨fun child _ => ?_, (Disk.pairwise_children disk place).imp ?_⟩
  · simp only
    split
    · rename_i hresource
      simp only [isResourceDir, Bool.and_eq_true, decide_eq_true_eq] at hresource
      refine List.pairwise_map.mpr (List.pairwise_map.mpr ?_)
      refine ((Disk.pairwise_children disk _).filter _).imp fun hless => ?_
      exact ⟨_, _, by rw [hresource.2], by rw [hresource.2], hless⟩
    · exact .nil
  · -- Only one child has the name.
    rintro a b hless first hfirst second hsecond
    have hname : ∀ {child : Text × Entry} {names : List Text},
        names ∈ (if isResourceDir settings child.1 child.2 then
          (categoryDirsIn disk settings (place ++ [child.1])).map (fun inner => [child.1, inner])
          else []) → child.1 = settings.resourceDirName := by
      intro child names hnames
      split at hnames
      · rename_i hresource
        simp only [isResourceDir, Bool.and_eq_true, decide_eq_true_eq] at hresource
        exact hresource.2
      · cases hnames
    rw [hname hfirst, hname hsecond] at hless
    exact absurd hless (StrictOrder.irrefl _)

theorem takesInOrder_definitionDirsIn (disk : Disk) (settings : IndexSettings) :
    Disk.TakesInOrder (definitionDirsIn disk settings) 1 where
  pairwise place := (pairwise_definitionDirsIn disk place).imp <| by
    rintro _ _ ⟨n, m, rfl, rfl, hless⟩
    exact hless
  length place more hmore := by
    obtain ⟨_, rfl, -⟩ := mem_definitionDirsIn.mp hmore
    rfl

/-- Where two disks have the same directories below a place, they are listed alike. -/
theorem definitionDirsBelow_eq {disk other : Disk} {place : Place}
    (hsame : ∀ names, disk.get? (place ++ names) = some .directory
      ↔ other.get? (place ++ names) = some .directory) :
    definitionDirsBelow disk settings place = definitionDirsBelow other settings place := by
  refine Disk.preorder_eq (takesInOrder_definitionDirsIn disk settings)
    (takesInOrder_definitionDirsIn other settings) fun names => ?_
  change names ∈ definitionDirsBelow disk settings place ↔
    names ∈ definitionDirsBelow other settings place
  rw [mem_definitionDirsBelow, mem_definitionDirsBelow, hsame names]

/-- The names lead to a directory that holds resources, by this way and of this name. -/
def LeadsTo (settings : IndexSettings) (root : Path) (directory : Path) (way : List Text)
    (inner : Text) : Prop :=
  directory = descend root (way ++ [settings.resourceDirName, inner])
    ∧ settings.resourceDirName ∉ way

theorem pairwise_definitionDirs {disk : Disk} {directories : List DefinitionDir}
    (hdirs : definitionDirs disk settings root = .ok directories) :
    directories.Pairwise fun a b => ∃ way inner way' inner',
      LeadsTo settings root a.path way inner ∧ LeadsTo settings root b.path way' inner'
        ∧ (way < way' ∨ way = way' ∧ inner < inner') := by
  rw [definitionDirs] at hdirs
  cases hopen : disk.openDirectory root with
  | error error =>
      rw [hopen] at hdirs
      cases hdirs
  | ok place =>
      rw [hopen] at hdirs
      cases hdirs
      refine List.pairwise_filterMap.mpr
        ((Disk.pairwise_preorder (pairwise_definitionDirsIn disk) _ _).imp ?_)
      rintro first second hless a ha b hb
      obtain ⟨way, more, way', more', rfl, rfl, ⟨hway, place, hmore⟩,
          ⟨hway', place', hmore'⟩, horder⟩
        := hless
      obtain ⟨stem, -, rfl⟩ := Option.map_eq_some_iff.mp ha
      obtain ⟨stem', -, rfl⟩ := Option.map_eq_some_iff.mp hb
      obtain ⟨inner, rfl, -⟩ := mem_definitionDirsIn.mp hmore
      obtain ⟨inner', rfl, -⟩ := mem_definitionDirsIn.mp hmore'
      have hfirst : ∀ {way : List Text}, (∀ d ∈ way, (!Disk.isSkipped settings.skippedDirNames d
          && d ≠ settings.resourceDirName) = true) → settings.resourceDirName ∉ way := by
        intro way hway hmem
        simpa using hway _ hmem
      refine ⟨way, inner, way', inner', ⟨rfl, hfirst hway⟩, ⟨rfl, hfirst hway'⟩, ?_⟩
      refine horder.imp_right ?_
      rintro ⟨rfl, n, m, hn, hm, hless⟩
      obtain rfl := (List.cons.inj (List.cons.inj hn).2).1
      obtain rfl := (List.cons.inj (List.cons.inj hm).2).1
      exact ⟨rfl, hless⟩

/-- A walk lists the files of a directory in order. -/
theorem pairwise_walk {directory : Path} {way : List Text} {inner : Text} {files : List Path}
    (hleads : LeadsTo settings root directory way inner)
    (hruns : Runs (walk settings directory) t files t') :
    files.Pairwise (Precedes settings root) ∧ ∀ file ∈ files, ∃ below name,
      file = descend root (Spot.names settings ⟨way, inner, below, name⟩) := by
  rw [walk] at hruns
  have hruns := Task.runs_refusable_bind (Task.runs_disk_bind.mp hruns)
  rw [Disk.walkFiles] at hruns
  cases hopen : t.disk.openDirectory directory with
  | error error =>
      rw [hopen] at hruns
      obtain ⟨_, _, -, hruns⟩ := Task.runs_bind.mp hruns
      obtain ⟨rfl, -⟩ := Task.runs_pure.mp hruns
      exact ⟨.nil, List.forall_mem_nil _⟩
  | ok place =>
      rw [hopen] at hruns
      obtain ⟨rfl, -⟩ := Task.runs_pure.mp hruns
      obtain ⟨rfl, hway⟩ := hleads
      have hspot : ∀ below name, descend (descend root (way ++ [settings.resourceDirName, inner]))
          (below ++ [name]) = descend root (Spot.names settings ⟨way, inner, below, name⟩) :=
        fun below name => Disk.descend_descend _ _ _
      constructor
      · refine .filter _ (List.pairwise_map.mpr
          ((Disk.pairwise_preorder (Disk.pairwise_filesIn t.disk) _ _).imp ?_))
        rintro first second ⟨below, more, below', more', rfl, rfl, ⟨-, _, hmore⟩, ⟨-, _, hmore'⟩,
          horder⟩
        obtain ⟨⟨name, _⟩, -, rfl⟩ := List.mem_map.mp hmore
        obtain ⟨⟨name', _⟩, -, rfl⟩ := List.mem_map.mp hmore'
        refine ⟨⟨way, inner, below, name⟩, ⟨way, inner, below', name'⟩, hway, hway, hspot _ _,
          hspot _ _, .inr ⟨rfl, .inr ⟨rfl, horder.imp_right ?_⟩⟩⟩
        rintro ⟨rfl, n, m, hn, hm, hless⟩
        obtain rfl := List.singleton_inj.mp hn
        obtain rfl := List.singleton_inj.mp hm
        exact ⟨rfl, hless⟩
      · intro file hfile
        obtain ⟨names, hnames, rfl⟩ := List.mem_map.mp (List.mem_filter.mp hfile).1
        obtain ⟨below, name, _, rfl, -⟩ := Disk.mem_filesBelow.mp hnames
        exact ⟨below, name, hspot below name⟩

/-- The catalog comes from declarations in the order of their files, each of which is one of those
that `files` allows. -/
def DeclaresInOrder (settings : IndexSettings) (root : Path) (files : Path → Prop)
    (c c' : Catalog) : Prop :=
  ∃ found : List (Resource × Path), c' = c.declareAll found ∧ (∀ entry ∈ found, files entry.2)
    ∧ found.Pairwise fun a b => a.2 = b.2 ∨ Precedes settings root a.2 b.2

namespace DeclaresInOrder

variable {files files' : Path → Prop}

theorem refl (c : Catalog) : DeclaresInOrder settings root files c c :=
  ⟨[], rfl, nofun, .nil⟩

theorem of_file (resources : List Resource) (file : Path) (c : Catalog) :
    DeclaresInOrder settings root (· = file) c
      (resources.foldl (fun c r => c.declare r file) c) := by
  refine ⟨resources.map (·, file), by rw [Catalog.declareAll, List.foldl_map], ?_, ?_⟩
  · intro entry hentry
    obtain ⟨r, -, rfl⟩ := List.mem_map.mp hentry
    rfl
  · exact List.pairwise_map.mpr (List.pairwise_of_forall fun _ _ => .inl rfl)

theorem imp (hdeclares : DeclaresInOrder settings root files c c')
    (hfiles : ∀ file, files file → files' file) : DeclaresInOrder settings root files' c c' := by
  obtain ⟨found, hc', hfound, horder⟩ := hdeclares
  exact ⟨found, hc', fun entry hentry => hfiles _ (hfound entry hentry), horder⟩

theorem trans {c'' : Catalog} (hfirst : DeclaresInOrder settings root files c c')
    (hsecond : DeclaresInOrder settings root files' c' c'')
    (hless : ∀ file file', files file → files' file' → Precedes settings root file file') :
    DeclaresInOrder settings root (fun file => files file ∨ files' file) c c'' := by
  obtain ⟨found, rfl, hfound, horder⟩ := hfirst
  obtain ⟨more, rfl, hmore, horder'⟩ := hsecond
  refine ⟨found ++ more, (Catalog.declareAll_append _ _ _).symm, fun entry hentry => ?_, ?_⟩
  · exact (List.mem_append.mp hentry).imp (hfound entry) (hmore entry)
  · exact List.pairwise_append.mpr ⟨horder, horder', fun entry hentry other hother =>
      .inr (hless _ _ (hfound entry hentry) (hmore other hother))⟩

end DeclaresInOrder

/-- Along a list, declarations stay in order if the files of its items do. -/
theorem declaresInOrder_foldlM {α : Type} {f : Catalog → α → Task Catalog} {list : List α}
    {F : α → Path → Prop}
    (hf : ∀ a ∈ list, ∀ {c t c' t'}, Runs (f c a) t c' t' →
      DeclaresInOrder settings root (F a) c c')
    (hlist : list.Pairwise fun a b => ∀ file file', F a file → F b file' →
      Precedes settings root file file')
    (hruns : Runs (list.foldlM f c) t c' t') :
    DeclaresInOrder settings root (fun file => ∃ a ∈ list, F a file) c c' := by
  induction list generalizing c t with
  | nil =>
      obtain ⟨rfl, rfl⟩ := Task.runs_foldlM_nil.mp hruns
      exact .refl _
  | cons a rest ih =>
      obtain ⟨next, u, hfirst, hruns⟩ := Task.runs_foldlM_cons.mp hruns
      obtain ⟨ha, hf'⟩ := List.forall_mem_cons.mp hf
      obtain ⟨hless, hrest⟩ := List.pairwise_cons.mp hlist
      refine ((ha hfirst).trans (ih hf' hrest hruns) ?_).imp fun file h => by simpa using h
      rintro file file' hfile ⟨b, hb, hfile'⟩
      exact hless b hb file file' hfile hfile'

/-- The files that the index takes from the directory at the end of a way. -/
def LiesIn (settings : IndexSettings) (root : Path) (way : List Text) (inner : Text)
    (file : Path) : Prop :=
  ∃ below name, file = descend root (Spot.names settings ⟨way, inner, below, name⟩)

theorem declaresInOrder_foldl {files : List Path}
    (hsorted : files.Pairwise (Precedes settings root))
    (category : Category) (extensions : List Text) (c : Catalog) :
    DeclaresInOrder settings root (· ∈ files) c
      (files.foldl
        (fun catalog file =>
          match derivedName? file.name extensions with
          | none => catalog
          | some name => catalog.declare ⟨category, name⟩ file)
        c) := by
  induction files generalizing c with
  | nil => exact .refl c
  | cons file rest ih =>
      obtain ⟨hless, hsorted'⟩ := List.pairwise_cons.mp hsorted
      have hfile : DeclaresInOrder settings root (· = file) c
          (match derivedName? file.name extensions with
            | none => c
            | some name => c.declare ⟨category, name⟩ file) := by
        cases derivedName? file.name extensions with
        | none => exact .refl c
        | some name => exact .of_file [⟨category, name⟩] file c
      refine (hfile.trans (ih hsorted' _) ?_).imp fun other h => by simpa using h
      rintro file file' rfl hfile'
      exact hless file' hfile'

theorem declaresInOrder_addFiles {directory : Path} {way : List Text} {inner : Text}
    (hleads : LeadsTo settings root directory way inner) {category : Category}
    {extensions : List Text}
    (hruns : Runs (addFiles settings c directory category extensions) t c' t') :
    DeclaresInOrder settings root (LiesIn settings root way inner) c c' := by
  obtain ⟨files, u, hwalk, hruns⟩ := Task.runs_bind.mp hruns
  obtain ⟨rfl, -⟩ := Task.runs_pure.mp hruns
  obtain ⟨hsorted, hspots⟩ := pairwise_walk hleads hwalk
  exact (declaresInOrder_foldl hsorted category extensions c).imp hspots

theorem declaresInOrder_addDefinitions {directory : Path} {way : List Text} {inner : Text}
    (hleads : LeadsTo settings root directory way inner)
    (hruns : Runs (addDefinitions settings c directory) t c' t') :
    DeclaresInOrder settings root (LiesIn settings root way inner) c c' := by
  obtain ⟨files, u, hwalk, hruns⟩ := Task.runs_bind.mp hruns
  obtain ⟨hsorted, hspots⟩ := pairwise_walk hleads hwalk
  have hdeclares : DeclaresInOrder settings root
      (fun file => ∃ a ∈ files.filter isDefinitionFile, file = a) c c' := by
    refine declaresInOrder_foldlM (F := fun a file => file = a) ?_ ?_ hruns
    · intro file _ c t c' t' hruns
      obtain ⟨⟨found, c''⟩, u, hruns, hpure⟩ := Task.runs_bind.mp hruns
      obtain ⟨rfl, rfl⟩ := Task.runs_pure.mp hpure
      rcases runs_addDefinitionFile hruns with ⟨bytes, -, rfl⟩ | ⟨-, rfl⟩
      · exact .of_file _ file c
      · exact .refl _
    · refine (hsorted.filter _).imp fun hless file file' hfile hfile' => ?_
      rwa [hfile, hfile']
  refine hdeclares.imp ?_
  rintro file ⟨_, hfile, rfl⟩
  exact hspots file (List.mem_filter.mp hfile).1

/-- The catalog that is built comes from declarations in the order of their files. -/
theorem declaresInOrder_build (hruns : Runs (build settings root) t c t') :
    DeclaresInOrder settings root (fun _ => True) .empty c := by
  have hruns := Task.runs_refusable_bind (Task.runs_disk_bind.mp hruns)
  cases hdirs : definitionDirs t.disk settings root with
  | error error =>
      rw [hdirs] at hruns
      obtain ⟨_, _, -, hruns⟩ := Task.runs_bind.mp hruns
      obtain ⟨rfl, -⟩ := Task.runs_pure.mp hruns
      exact .refl _
  | ok directories =>
      rw [hdirs] at hruns
      have hsorted := pairwise_definitionDirs hdirs
      have hways : ∀ directory ∈ directories, ∃ way inner,
          LeadsTo settings root directory.path way inner := by
        intro directory hdirectory
        cases hopen : t.disk.openDirectory root with
        | error error =>
            rw [definitionDirs, hopen] at hdirs
            cases hdirs
        | ok place =>
            obtain ⟨dirs, ⟨way, inner, rfl, hway, -⟩, hpath, -⟩ :=
              (mem_definitionDirs hopen hdirs).mp hdirectory
            exact ⟨way, inner, hpath, fun hmem => (hway _ hmem).2 rfl⟩
      refine (declaresInOrder_foldlM (F := fun directory file => ∃ way inner,
        LeadsTo settings root directory.path way inner ∧ LiesIn settings root way inner file)
        ?_ ?_ hruns).imp fun _ _ => trivial
      · rintro ⟨stem, path⟩ hdirectory c t c' t' hruns
        obtain ⟨way, inner, hleads⟩ := hways _ hdirectory
        have hadded : DeclaresInOrder settings root (LiesIn settings root way inner) c c' := by
          unfold addDirectory at hruns
          split at hruns
          · exact declaresInOrder_addFiles hleads hruns
          · split at hruns
            · exact declaresInOrder_addFiles hleads hruns
            · exact declaresInOrder_addDefinitions hleads hruns
        exact hadded.imp fun file hfile => ⟨way, inner, hleads, hfile⟩
      · refine hsorted.imp ?_
        rintro a b ⟨way, inner, way', inner', hleads, hleads', hless⟩ file file'
          ⟨way₁, inner₁, hleads₁, below, name, rfl⟩ ⟨way₂, inner₂, hleads₂, below', name', rfl⟩
        have hsame : ∀ {directory : Path} {way inner way' inner'},
            LeadsTo settings root directory way inner →
              LeadsTo settings root directory way' inner' →
            way = way' ∧ inner = inner' := by
          rintro directory way inner way' inner' ⟨rfl, -⟩ ⟨heq, -⟩
          obtain ⟨rfl, hinner⟩ := List.append_inj' (Disk.descend_injective heq) rfl
          exact ⟨rfl, (List.cons.inj (List.cons.inj hinner).2).1⟩
        obtain ⟨rfl, rfl⟩ := hsame hleads hleads₁
        obtain ⟨rfl, rfl⟩ := hsame hleads' hleads₂
        refine ⟨⟨way, inner, below, name⟩, ⟨way', inner', below', name'⟩, hleads.2, hleads'.2,
          rfl, rfl, hless.imp_right ?_⟩
        rintro ⟨rfl, hinner⟩
        exact ⟨rfl, .inl hinner⟩

/-- The files of a record are listed in the order in which the index comes by them. -/
theorem pairwise_build (hruns : Runs (build settings root) t c t') {r : Resource}
    {record : Record} (hget : c.get? r = some record) :
    record.files.Pairwise (Precedes settings root) := by
  obtain ⟨found, rfl, -, horder⟩ := declaresInOrder_build hruns
  refine Catalog.pairwise_declareAll horder (fun r record hnone => ?_) hget
  cases (show (none : Option Record) = some record from hnone)

/-- No line is counted before references are. -/
theorem uses_build (hruns : Runs (build settings root) t c t') {r : Resource} {record : Record}
    (hget : c.get? r = some record) : record.uses = 0 := by
  obtain ⟨found, rfl, -⟩ := declaresInOrder_build hruns
  refine Catalog.uses_declareAll (fun r record hnone => ?_) hget
  cases (show (none : Option Record) = some record from hnone)

/-- A record lists no file twice. -/
theorem nodup_build (hruns : Runs (build settings root) t c t') {r : Resource} {record : Record}
    (hget : c.get? r = some record) : record.files.Nodup := by
  refine (pairwise_build hruns hget).imp fun hless heq => ?_
  subst heq
  exact hless.asymm hless

/-- Builds that find the same files of a resource list them alike. -/
theorem files_eq_of_has_iff {s s' : Session} (hruns : Runs (build settings root) t c t')
    (hruns' : Runs (build settings root) s c' s') {r : Resource}
    (hfiles : ∀ file, c.Has r file ↔ c'.Has r file) {record record' : Record}
    (hget : c.get? r = some record) (hget' : c'.get? r = some record') :
    record.files = record'.files := by
  refine List.Perm.eq_of_pairwise (fun a b _ _ hless hmore => absurd hmore hless.asymm)
    (pairwise_build hruns hget) (pairwise_build hruns' hget')
    ((List.perm_ext_iff_of_nodup (nodup_build hruns hget) (nodup_build hruns' hget')).mpr
      fun file => ?_)
  have hmem : ∀ {c : Catalog} {record : Record}, c.get? r = some record →
      (c.Has r file ↔ file ∈ record.files) := by
    intro c record hget
    refine ⟨?_, fun hfile => ⟨record, hget, hfile⟩⟩
    rintro ⟨found, hfound, hfile⟩
    rw [hget] at hfound
    cases hfound
    exact hfile
  rw [← hmem hget, ← hmem hget', hfiles]

end

end Index

end ResourcePruner
