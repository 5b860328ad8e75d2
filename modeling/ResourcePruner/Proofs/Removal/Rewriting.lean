import Mathlib.Data.List.Flatten
import ResourcePruner.Proofs.Definition.Verdicts
import ResourcePruner.Proofs.Removal.Reindex
import ResourcePruner.Proofs.Utf8.Inverse

/-!
# What a pass writes into definition files

A definition file keeps its bytes in a pass, or loses the bytes of whole lines, but not all of them
(`Removal.LosesLines`); whether it changes can be told from what it holds and from what is unused
(`Removal.IsCutBy`). The files that a pass lists as pruned are those that change
(`Removal.rewrites_of_isApart`).

Bytes are kept because reading strictly and writing are inverse to each other
(`Utf8.encode_of_decode?`), as are cutting into lines and joining them.
-/

namespace ResourcePruner

open Disk (Extends)

/-! ## Bytes of lines -/

theorem Utf8.encode_flatten (lines : List Text) :
    Utf8.encode lines.flatten = lines.flatMap Utf8.encode := by
  induction lines with
  | nil => rfl
  | cons line rest ih =>
      rw [List.flatten_cons, List.flatMap_cons, ← ih, Utf8.encode, List.flatMap_append]
      rfl

/-- A text that is not empty has bytes. -/
theorem Utf8.encode_ne_nil {text : Text} (hwhole : ∀ s ∈ text, s.isHalf = false) (hne : text ≠ []) :
    Utf8.encode text ≠ [] := by
  intro hnil
  have hdecode := Utf8.decode?_encode hwhole
  rw [hnil] at hdecode
  cases hdecode
  exact hne rfl

theorem Text.Whole.ne_nil {lines : List Text} (hwhole : Whole lines) : ∀ line ∈ lines,
    line ≠ [] := by
  induction hwhole with
  | nil => exact nofun
  | last _ hnonempty => exact List.forall_mem_singleton.mpr hnonempty
  | cons _ hending _ ih =>
      refine List.forall_mem_cons.mpr ⟨fun hnil => ?_, ih⟩
      rw [(List.append_eq_nil_iff.mp hnil).2] at hending
      rcases hending with h | ⟨s, -, h⟩ <;> cases h

/-- Where lines are left out that have bytes, there are fewer bytes. -/
theorem length_flatMap_lt_of_sublist {α β : Type} {f : α → List β} {kept all : List α}
    (hkept : kept.Sublist all) (hne : ∀ a ∈ all, f a ≠ []) (hless : kept.length < all.length) :
    (kept.flatMap f).length < (all.flatMap f).length := by
  induction hkept with
  | slnil => exact absurd hless (Nat.lt_irrefl 0)
  | cons a hrest _ =>
      have hlength := (hrest.flatMap f).length_le
      have hpos := List.length_pos_iff.mpr (hne a List.mem_cons_self)
      rw [List.flatMap_cons, List.length_append]
      omega
  | cons_cons a _ ih =>
      have hrest :=
        ih (fun b hb => hne b (List.mem_cons_of_mem _ hb)) (Nat.lt_of_succ_lt_succ hless)
      rw [List.flatMap_cons, List.flatMap_cons, List.length_append, List.length_append]
      exact Nat.add_lt_add_left hrest _

namespace Removal

open ResourcePruner.Task (Runs)

/-! ## Contents that change -/

/-- Some lines of a text have been cut out of its bytes, and some are left. -/
structure LosesLines (before after : Bytes) : Prop where
  exists_lines : ∃ (text : Text) (kept : List Text), Utf8.decode? before = .ok text
    ∧ kept.Sublist (Text.linesWithEnds text)
    ∧ before = (Text.linesWithEnds text).flatMap Utf8.encode ∧ after = kept.flatMap Utf8.encode
  remains : after ≠ []
  shorter : after.length < before.length

theorem LosesLines.ne {before after : Bytes} (hloses : LosesLines before after) :
    after ≠ before := by
  rintro rfl
  exact Nat.lt_irrefl _ hloses.shorter

/-- What removing the doomed resources does not leave as it is: a text in which no block that
declares one of them is left open, of which some group is dropped, and some text remains. -/
def IsCutBy (doomed : Doomed) (content : Bytes) : Prop :=
  ∃ text, Utf8.decode? content = .ok text
    ∧ (∀ r ∈ (Layout.ofLines (Text.linesWithEnds text)).tailLines.flatMap Declaration.resourcesOn,
      doomed r = false)
    ∧ (∃ g, Part.group g ∈ (Layout.ofLines (Text.linesWithEnds text)).parts
        ∧ g.isDropped doomed = true)
    ∧ (Pruning.ofLines doomed (Text.linesWithEnds text)).text ≠ []

theorem isPrunable_iff {doomed : Doomed} {content : Bytes} :
    IsPrunable doomed content ↔ IsCutBy doomed content := by
  refine exists_congr fun text => and_congr_right fun _ => and_congr ?_ ?_
  · refine Decidable.not_iff_not.mp ((Pruning.unterminated_ne_none_iff).trans ?_)
    simp only [Classical.not_forall, Bool.not_eq_false, exists_prop]
  · rw [Pruning.shouldWrite, Bool.and_eq_true, decide_eq_true_eq, Pruning.droppedCount_pos_iff,
      Bool.not_eq_true', List.isEmpty_eq_false_iff]

/-- What pruning leaves of a content, if it leaves anything, is some of its lines. -/
theorem losesLines_of_pruning {doomed : Doomed} {before : Bytes} {text : Text}
    (hdecode : Utf8.decode? before = .ok text)
    (hwritten : (Pruning.ofLines doomed (Text.linesWithEnds text)).shouldWrite = true) :
    LosesLines before (Utf8.encode (Pruning.ofLines doomed (Text.linesWithEnds text)).text) := by
  have hbefore : before = (Text.linesWithEnds text).flatMap Utf8.encode := by
    rw [← Utf8.encode_flatten, Text.flatten_linesWithEnds, Utf8.encode_of_decode? hdecode]
  have hkept := Pruning.lines_sublist doomed (Text.linesWithEnds text)
  rw [Pruning.shouldWrite, Bool.and_eq_true, decide_eq_true_eq, Bool.not_eq_true',
    List.isEmpty_eq_false_iff] at hwritten
  obtain ⟨hdropped, hremains⟩ := hwritten
  have hchars : ∀ line ∈ Text.linesWithEnds text, ∀ s ∈ line, s.isHalf = false := by
    intro line hline s hs
    refine Utf8.isHalf_of_decode? hdecode s ?_
    rw [← Text.flatten_linesWithEnds text]
    exact List.mem_flatten.mpr ⟨line, hline, hs⟩
  constructor
  case exists_lines => exact ⟨text, _, hdecode, hkept, hbefore, Utf8.encode_flatten _⟩
  case remains =>
    exact Utf8.encode_ne_nil (Utf8.isHalf_of_decode? (decode?_pruned hdecode)) hremains
  case shorter =>
    have hlength := Pruning.length_lines_add_droppedCount doomed (Text.linesWithEnds text)
    have hless := length_flatMap_lt_of_sublist (f := Utf8.encode) hkept (fun line hline =>
      Utf8.encode_ne_nil (hchars line hline) ((Text.whole_linesWithEnds text).ne_nil line hline))
        (by omega)
    rwa [← Utf8.encode_flatten, ← hbefore] at hless

/-! ## The files listed -/

section

variable {store : Backup.Store} {s s' : Session} {removal next : Removal}

/-- The files that are pruned are entered in the order in which they were to be pruned. -/
theorem sublist_pruneEach {entries : List (Resource × Record)} {files : List Path}
    {init found : List (Path × List Resource)}
    (hruns : Runs (files.foldlM (pruneNext entries) init) s found s') :
    (found.map Prod.fst).Sublist (init.map Prod.fst ++ files) := by
  induction files generalizing init s with
  | nil =>
      obtain ⟨rfl, -⟩ := Task.runs_foldlM_nil.mp hruns
      rw [List.append_nil]
  | cons file rest ih =>
      obtain ⟨next, t, hfirst, hrest⟩ := Task.runs_foldlM_cons.mp hruns
      obtain ⟨pruned, -, rfl⟩ := runs_pruneNext hfirst
      refine (ih hrest).trans ?_
      rw [List.map_append, List.append_assoc]
      refine List.Sublist.append_left ?_ _
      cases pruned with
      | none => exact List.sublist_cons_self file rest
      | some removed => exact .refl _

/-- Deleting files prunes none. -/
theorem prunedFiles_removeFiles {r : Resource} {record : Record} {left : List Path}
    (hruns : Runs (removeFiles store r record left removal) s next s') :
    next.prunedFiles = removal.prunedFiles := by
  have hfail : ∀ {path : Path} {code : Text} {failure : Failure} {removal : Removal} {t : Session},
      Runs (failFile r path code failure removal) t next s' →
        next.prunedFiles = removal.prunedFiles := by
    intro path code failure removal t hruns
    rw [eq_of_failFile hruns]
  induction left generalizing removal s with
  | nil =>
      obtain ⟨_, _, -, hpure⟩ := Task.runs_bind.mp hruns
      obtain ⟨rfl, -⟩ := Task.runs_pure.mp hpure
      rfl
  | cons file rest ih =>
      obtain ⟨archived, t, -, hruns⟩ := Task.runs_bind.mp hruns
      cases archived with
      | error failure => exact (hfail hruns).trans rfl
      | ok backup =>
          obtain ⟨unlinked, u, -, hruns⟩ := Task.runs_bind.mp hruns
          cases unlinked with
          | error failure => exact (hfail hruns).trans rfl
          | ok _ =>
              obtain ⟨_, v, -, hruns⟩ := Task.runs_bind.mp hruns
              exact (ih hruns).trans rfl

theorem prunedFiles_removeEach {entries : List (Resource × Record)}
    (hruns : Runs (entries.foldlM (removeNext store) removal) s next s') :
    next.prunedFiles = removal.prunedFiles := by
  induction entries generalizing removal s with
  | nil =>
      obtain ⟨rfl, -⟩ := Task.runs_foldlM_nil.mp hruns
      rfl
  | cons entry rest ih =>
      obtain ⟨middle, t, hfirst, hrest⟩ := Task.runs_foldlM_cons.mp hruns
      exact (ih hrest).trans (prunedFiles_removeFiles hfirst)

/-- The files listed are some of those of the unused inline resources, in their order. -/
theorem sublist_prunedFiles (hruns : Runs (removeUnused store) s removal s') :
    removal.prunedFiles.Sublist
      (Path.sorted ((s.catalog.unused.filter (·.1.category.isInline)).flatMap (·.2.files))) := by
  obtain ⟨pruned, settled, t, u, v, hprune, hsettle, hremove, -⟩ := runs_removeUnused hruns
  have hsublist := sublist_pruneEach hprune
  rwa [List.map_nil, List.nil_append, ← show removal.prunedFiles = pruned.map Prod.fst from
    (prunedFiles_removeEach hremove).trans (prunedFiles_of_settle hsettle)] at hsublist

/-- They belong to inline resources that are known. -/
theorem exists_has_of_mem_sorted {catalog : Catalog} {file : Path} (hfile : file ∈ Path.sorted
      ((catalog.unused.filter (·.1.category.isInline)).flatMap (·.2.files))) :
    ∃ r, r.category.isInline = true ∧ catalog.Has r file := by
  obtain ⟨entry, hentry, hmem⟩ := List.mem_flatMap.mp (Path.mem_of_mem_sorted hfile)
  obtain ⟨hunused, hinline⟩ := List.mem_filter.mp hentry
  exact ⟨entry.1, hinline, Catalog.has_of_mem_unused hunused hmem⟩

end

end Removal

/-! ## Definition files -/

namespace Catalog

/-- What is known and not in use. -/
def isUnused (catalog : Catalog) : Doomed :=
  fun r => (catalog.get? r).any (!·.isUsed)

theorem isUnused_iff {catalog : Catalog} {r : Resource} :
    catalog.isUnused r = true ↔ ∃ record, (r, record) ∈ catalog.unused := by
  simp only [isUnused, Option.any_eq_true, mem_unused, Bool.not_eq_true']

end Catalog

namespace Index

variable {settings : IndexSettings} {root goal goal' : Path} {stem : Text} {file : Path}
  {place : Place}

/-- The file is indexed as a definition file. -/
structure Defines (settings : IndexSettings) (root goal : Path) (stem : Text) (file : Path)
    (place : Place) : Prop extends Indexes settings root goal stem file place where
  not_layout : stem ≠ Category.directoryStem .layout
  not_drawable : stem ≠ Category.directoryStem .drawable
  isDefinitionFile : isDefinitionFile file = true

/-- Only the place of the root counts. -/
theorem Defines.of_place_eq (hdefines : Defines settings root goal stem file place)
    (hplace : goal'.place = goal.place) : Defines settings root goal' stem file place :=
  { hdefines with exists_names := by simpa only [hplace] using hdefines.exists_names }

theorem Defines.mem_resourcesOf_iff (hdefines : Defines settings root goal stem file place)
    {r : Resource} {content : Bytes} :
    r ∈ resourcesOf settings stem file content ↔ r ∈ declaredIn content := by
  rw [resourcesOf, if_neg hdefines.not_layout, if_neg hdefines.not_drawable,
    if_pos hdefines.isDefinitionFile]

/-- The file is indexed as a definition file, and that is its content. -/
def HoldsDefinitions (settings : IndexSettings) (root : Path) (disk : Disk) (file : Path)
    (content : Bytes) : Prop :=
  ∃ goal stem place, disk.openDirectory root = .ok goal.place
    ∧ Defines settings root goal stem file place
    ∧ disk.get? place = some (.file content)

end Index

namespace Removal

open ResourcePruner.Task (Runs)
open Index (HoldsDefinitions Defines)

/-- What a pass makes of the definition files: each keeps its bytes, or loses lines; it changes
exactly if removing what is unused cuts it, and is listed exactly if it changes. -/
structure Rewrites (settings : IndexSettings) (root : Path) (counted : Catalog) (removal : Removal)
    (disk disk' : Disk) : Prop where
  file : ∀ file before, HoldsDefinitions settings root disk file before →
    disk.read file = .ok before ∧ ∃ after, disk'.read file = .ok after
      ∧ (after = before ∨ LosesLines before after)
      ∧ (after ≠ before ↔ IsCutBy counted.isUnused before)
      ∧ (file ∈ removal.prunedFiles ↔ after ≠ before)
  ordered : removal.prunedFiles.Pairwise fun a b => a.orderKey < b.orderKey
  only : ∀ file ∈ removal.prunedFiles, ∃ before, HoldsDefinitions settings root disk file before

section

variable {settings : IndexSettings} {root goal : Path} {store : Backup.Store} {scene : Scene}
  {s s' : Session} {built counted : Catalog} {removal : Removal} {r : Resource} {stem : Text}
  {file other : Path} {place : Place} {before : Bytes}

namespace Passes

theorem exists_defines (h : Passes settings root goal store scene s s' built)
    (hholds : HoldsDefinitions settings root s.disk file before) : ∃ stem place,
      Defines settings root goal stem file place ∧ s.disk.get? place = some (.file before) := by
  obtain ⟨goal', stem, place, hopen, hdefines, hfile⟩ := hholds
  have hopen' := Disk.openDirectory_of_locates h.isAbsolute h.isLookedUp h.locates h.directory
  exact ⟨stem, place, hdefines.of_place_eq (Except.ok.inj (hopen'.symm.trans hopen)), hfile⟩

/-- The file of an inline resource is indexed as a definition file. -/
theorem holdsDefinitions_of_has (h : Passes settings root goal store scene s s' built)
    (hfile : built.Has r file) (hinline : r.category.isInline = true) :
    ∃ before, HoldsDefinitions settings root s.disk file before := by
  obtain ⟨stem, place, before, hindexes, hbefore, hr⟩ := (h.built_iff r file).mp hfile
  obtain ⟨hlayout, hdrawable, hdefinition, -⟩ := (Index.mem_resourcesOf_iff hinline).mp hr
  exact ⟨before, goal, stem, place,
    Disk.openDirectory_of_locates h.isAbsolute h.isLookedUp h.locates h.directory,
    ⟨hindexes, hlayout, hdrawable, hdefinition⟩, hbefore⟩

/-- What stands where a definition file is indexed is that file, and what it belongs to is an inline
resource. -/
theorem eq_of_stands (h : Passes settings root goal store scene s s' built)
    (hdefines : Defines settings root goal stem file place) (hfile : built.Has r other)
    (hstands : scene.first.Stands other place) : other = file ∧ r.category.isInline = true := by
  obtain ⟨stem', place', content, hindexes', hcontent, hr⟩ := (h.built_iff r other).mp hfile
  obtain rfl := h.eq_place hindexes' hcontent hstands
  obtain rfl := hdefines.file_unique hindexes'
  obtain ⟨rfl, -⟩ := hdefines.unique hindexes'
  exact ⟨rfl,
    (Index.isInline_of_mem_resourcesOf hr).mpr ⟨hdefines.not_layout, hdefines.not_drawable⟩⟩

/-- A definition file can be pruned exactly if removing what is unused cuts it. -/
theorem isPrunable_doomedBy_iff (h : Passes settings root goal store scene s s' built)
    (hcounted : ∀ r, (counted.get? r).map (·.files) = (built.get? r).map (·.files))
    (hdefines : Defines settings root goal stem file place)
    (hbefore : s.disk.get? place = some (.file before)) :
    IsPrunable (doomedBy counted file) before ↔ IsCutBy counted.isUnused before := by
  rw [← isPrunable_iff]
  refine exists_congr fun text => and_congr_right fun hdecode => ?_
  -- What the file declares was entered with it, so that it is doomed there once it is unused.
  have hsame : ∀ r ∈ (Text.linesWithEnds text).flatMap Declaration.resourcesOn,
      doomedBy counted file r = counted.isUnused r := by
    intro r hr
    obtain ⟨line, -, honline⟩ := List.mem_flatMap.mp hr
    rw [← declaredIn_of_decode? hdecode, ← hdefines.mem_resourcesOf_iff] at hr
    obtain ⟨record, hget, hmem⟩ := (Catalog.has_congr hcounted).mpr
      ((h.built_iff r file).mpr ⟨stem, place, before, hdefines.toIndexes, hbefore, hr⟩)
    rw [Bool.eq_iff_iff, doomedBy_eq_true, Catalog.isUnused_iff]
    constructor
    · rintro ⟨-, record', hunused, -⟩
      exact ⟨record', hunused⟩
    · rintro ⟨record', hunused⟩
      obtain rfl := Option.some.inj (hget.symm.trans (Catalog.mem_unused.mp hunused).1)
      exact ⟨Index.isInline_of_mem_resourcesOn honline, record, hunused, hmem⟩
  rw [Pruning.ofLines_congr hsame]

/-- What becomes of the content of a definition file in the pass. -/
theorem exists_content (h : Passes settings root goal store scene s s' built)
    (hcounted : ∀ r, (counted.get? r).map (·.files) = (built.get? r).map (·.files))
    (hlies : counted.LiesOn scene.first)
    (hruns : Runs (removeUnused store) { s with catalog := counted } removal s')
    (hdefines : Defines settings root goal stem file place)
    (hbefore : s.disk.get? place = some (.file before)) :
    ∃ after, s'.disk.get? place = some (.file after) ∧ (after = before ∨ LosesLines before after)
      ∧ (after ≠ before ↔ IsCutBy counted.isUnused before)
      ∧ (file ∈ removal.prunedFiles ↔ after ≠ before) := by
  obtain ⟨pruned, settled, t, u, v, hprune, hsettle, hremove, rfl⟩ := runs_removeUnused hruns
  have hlisted : removal.prunedFiles = pruned.map Prod.fst :=
    (prunedFiles_removeEach hremove).trans (prunedFiles_of_settle hsettle)
  have hkept : ¬ Deletes counted scene.first place := by
    rintro ⟨entry, hentry, hkind, other, hother, hstands⟩
    have hfound := (Catalog.has_congr hcounted).mp (Catalog.has_of_mem_unused hentry hother)
    rw [(h.eq_of_stands hdefines hfound hstands).2] at hkind
    cases hkind
  have hothers : ∀ other ∈ Path.sorted
      ((counted.unused.filter (·.1.category.isInline)).flatMap (·.2.files)),
      ∃ place', scene.first.Stands other place' ∧ (other ≠ file → place' ≠ place) := by
    intro other hother
    obtain ⟨r, -, hfound⟩ := exists_has_of_mem_sorted hother
    obtain ⟨place', hstands⟩ := hlies.stands r other hfound
    refine ⟨place', hstands, fun hne heq => hne ?_⟩
    subst heq
    exact (h.eq_of_stands hdefines ((Catalog.has_congr hcounted).mp hfound) hstands).1
  have hlast : Extends v.disk scene.last := h.last
  rcases pruned_cases (h.has_counted counted) hlast h.backups hlies hprune hsettle hremove
      (h.stands hdefines.toIndexes hbefore) (h.shown _ _ _ hdefines.toIndexes) hkept hothers
        hbefore with
    ⟨hnot, hafter, hwhy⟩ | ⟨text, -, hdecode, hended, hwritten, ⟨removed, hmem⟩, hafter⟩
  · have hlooked := hdefines.isLookedUp hdefines.not_layout hdefines.not_drawable
    refine ⟨before, hafter, .inl rfl, iff_of_false (absurd rfl) fun hcut => ?_,
      iff_of_false (fun hmem => ?_) (absurd rfl)⟩
    · exact hwhy hlooked ((h.isPrunable_doomedBy_iff hcounted hdefines hbefore).mpr hcut)
    · obtain ⟨⟨_, removed⟩, hentry, rfl⟩ := List.mem_map.mp (hlisted ▸ hmem)
      exact hnot removed hentry
  · have hloses := losesLines_of_pruning hdecode hwritten
    refine ⟨_, hafter, .inr hloses, iff_of_true hloses.ne ?_, iff_of_true ?_ hloses.ne⟩
    · exact (h.isPrunable_doomedBy_iff hcounted hdefines hbefore).mp
        ⟨text, hdecode, hended, hwritten⟩
    · exact hlisted ▸ List.mem_map_of_mem hmem

/-- What becomes of the definition files in the pass. -/
theorem rewrites (h : Passes settings root goal store scene s s' built)
    (hcounted : ∀ r, (counted.get? r).map (·.files) = (built.get? r).map (·.files))
    (hlies : counted.LiesOn scene.first)
    (hruns : Runs (removeUnused store) { s with catalog := counted } removal s') :
    Rewrites settings root counted removal s.disk s'.disk := by
  have hsublist := sublist_prunedFiles hruns
  constructor
  case ordered => exact (Path.pairwise_sorted _).sublist hsublist
  case only =>
    intro file hfile
    obtain ⟨r, hinline, hfound⟩ := exists_has_of_mem_sorted (hsublist.subset hfile)
    exact h.holdsDefinitions_of_has ((Catalog.has_congr hcounted).mp hfound) hinline
  case file =>
    intro file before hholds
    obtain ⟨stem, place, hdefines, hbefore⟩ := h.exists_defines hholds
    have hreads : ∀ {disk : Disk} {content : Bytes}, Extends s.disk disk →
        disk.get? place = some (.file content) → disk.read file = .ok content := by
      intro disk content hstays hcontent
      obtain ⟨found, hfound, rfl⟩ := hdefines.locates (h.locates.mono hstays) hcontent
      exact Disk.read_of_locates (hdefines.isAbsolute h.isAbsolute)
        (hdefines.isLookedUp hdefines.not_layout hdefines.not_drawable) hfound hcontent
    obtain ⟨after, hafter, hcases⟩ := h.exists_content hcounted hlies hruns hdefines hbefore
    exact ⟨hreads (.refl _) hbefore, after, hreads (h.frame hlies hruns).stays hafter, hcases⟩

end Passes

end

section

variable {settings : IndexSettings} {root : Path} {store : Backup.Store}
  {s₀ s₁ s₂ : Session} {built counted : Catalog} {removal : Removal}

/-- **Definition files change by losing whole lines only.** The catalog is built, counted in any way
and handed to a pass. Every definition file keeps its bytes, or loses those of some lines but not
all; it changes exactly if it is UTF-8, no unused resource is declared in a block left open, some
group of lines is dropped and something remains; and the files that change are listed, each once and
in order. -/
theorem rewrites_of_isApart (habsolute : root.isAbsolute = true)
    (hapart : store.IsApart s₀.disk root) (hlog : s₀.KeepsLogApart settings root)
    (hbuild : Runs (Index.build settings root) s₀ built s₁)
    (hcounted : ∀ r, (counted.get? r).map (·.files) = (built.get? r).map (·.files))
    (hremove : Runs (removeUnused store) { s₁ with catalog := counted } removal s₂) :
    Rewrites settings root counted removal s₁.disk s₂.disk := by
  rcases exists_passes habsolute hapart hlog hbuild hcounted hremove (.refl _) with
    ⟨goal, scene, -, h⟩ | ⟨hnone, -, -, rfl⟩
  · have hlies := (liesOn_of_counted habsolute hapart hlog hbuild hcounted).1
    exact h.rewrites hcounted (h.first ▸ hlies) hremove
  · exact ⟨fun _ _ ⟨_, _, _, hopen, _⟩ => absurd hopen (hnone _), .nil, nofun⟩

end

/-- The file from which a color is pruned, but of which a line stays, is rewritten. -/
theorem rewrites_of_twice :
    Rewrites .default Twice.root Twice.counted (Twice.pruned.1.toOption.getD nothing)
        Twice.built.2.disk Twice.pruned.2.disk
      ∧ (Twice.pruned.1.toOption.getD nothing).prunedFiles = [Twice.file] := by
  have hok : (Twice.built.1.toOption.isSome = true ∧ Twice.pruned.1.toOption.isSome = true)
      ∧ (Twice.pruned.1.toOption.getD nothing).prunedFiles = [Twice.file] := by
    decide +kernel
  obtain ⟨⟨hbuilt, hpruned⟩, hlisted⟩ := hok
  exact ⟨rewrites_of_isApart rfl Twice.isApart Twice.keepsLogApart
    (Task.runs_of_exec (e := Twice.built) rfl .empty hbuilt) Twice.files_counted
    (Task.runs_of_exec (e := Twice.pruned) rfl nothing hpruned), hlisted⟩

/-! ## Definition files that are overwritten -/

namespace Overwritten

def root : Path := ⟨.root, ["p"]⟩

def file : Path := ⟨.root, ["p", "res", "values", "m.xml"]⟩

def content : Bytes := Utf8.encode "<color name=\"x\"/>"

/-- A project with an unused layout and a definition file of the same name. -/
def project : Disk :=
  ((((((Disk.empty []).put ["p"] .directory).put ["p", "res"] .directory).put
    ["p", "res", "layout"] .directory).put ["p", "res", "values"] .directory).put
    ["p", "res", "layout", "m.xml"] (.file (Utf8.encode "<LinearLayout></LinearLayout>"))).put
    file.place (.file content)

/-- From a directory beside the project a link leads back to the definition files. -/
def linkedBack : Disk :=
  ((project.put ["o"] .directory).put ["o", "res"] .directory).put
    ["o", "res", "layout"] (.link "/p/res/values")

/-- The backup path goes down into a missing directory and up again. -/
def throughMissing : Backup.Store := ⟨root, ⟨.root, ["q", "..", "o"]⟩⟩

def log : Option Path := some ⟨.root, ["log"]⟩

/-- The path of the log is a link to the definition file. -/
def linkedTo : Disk :=
  project.put ["log"] (.link "/p/res/values/m.xml")

def beside : Backup.Store := ⟨root, ⟨.root, ["b"]⟩⟩

def start (disk : Disk) (log : Option Path) : Session where
  disk
  clock := Twice.start.clock
  trail := .start log "run"
  catalog := .empty
  roots := none
  patience := none

def built (disk : Disk) (log : Option Path) : Except Failure Catalog × Session :=
  Task.exec (Index.build .default root) (start disk log)

def pruned (disk : Disk) (log : Option Path) (store : Backup.Store) :
    Except Failure Removal × Session :=
  Task.exec (removeUnused store)
    { (built disk log).2 with catalog := (built disk log).1.toOption.getD .empty }

theorem holdsDefinitions {disk : Disk} (hopen : disk.openDirectory root = .ok ["p"])
    (hfile : disk.get? file.place = some (.file content)) :
    HoldsDefinitions .default root disk file content := by
  have hlooked : Disk.IsLookedUp file ∧ Disk.IsLookedUp (Disk.descend root ["res", "values"]) := by
    unfold Disk.IsLookedUp
    decide +kernel
  refine ⟨root, "values", file.place, hopen,
    ⟨⟨⟨["res", "values"], ["m.xml"], ⟨[], "values", rfl, nofun, ?_⟩,
    ⟨[], "m.xml", rfl, nofun, ?_⟩, rfl, rfl, hlooked.2⟩, fun _ _ => hlooked.1⟩, ?_, ?_, ?_⟩, hfile⟩
  all_goals decide +kernel

theorem isMissing (place : Place) :
    linkedBack.openDirectory throughMissing.directory ≠ .ok place := by
  rw [show linkedBack.openDirectory throughMissing.directory
    = .error ⟨.noEntry, throughMissing.directory⟩ from rfl]
  exact nofun

theorem places : ∃ directory resolved, linkedBack.resolve throughMissing.directory = .ok directory
    ∧ linkedBack.resolve root = .ok resolved ∧ ¬ resolved.place <+: directory.place
    ∧ ¬ directory.place <+: resolved.place :=
  ⟨⟨.root, ["o"]⟩, root, rfl, rfl, by decide +kernel, by decide +kernel⟩

theorem isApart : beside.IsApart linkedTo root := by
  refine ⟨⟨rfl, ?_⟩, fun place hopen => ?_, beside.directory, root, rfl, rfl, ?_, ?_⟩
  · refine List.forall_mem_singleton.mpr ⟨?_, ?_, ?_⟩ <;> decide
  · cases (show linkedTo.openDirectory beside.directory = .error ⟨.noEntry, beside.directory⟩ from
      rfl).symm.trans hopen
  · decide +kernel
  · decide +kernel

/-- The pass makes the definition file longer. -/
def Lengthens (disk : Disk) (log : Option Path) (store : Backup.Store) : Prop :=
  (built disk log).1.toOption.isSome = true ∧ (pruned disk log store).1.toOption.isSome = true
    ∧ (built disk log).2.disk.openDirectory root = .ok ["p"]
    ∧ (built disk log).2.disk.get? file.place = some (.file content)
    ∧ content.length < (((pruned disk log store).2.disk.read file).toOption.getD []).length

/-- Such a pass does not just leave lines out. -/
theorem Lengthens.not_forall_rewrites {disk : Disk} {log : Option Path} {store : Backup.Store}
    (hlengthens : Lengthens disk log store) : ¬ ∀ (s₁ s₂ : Session) (found : Catalog)
      (removal : Removal), Runs (Index.build .default root) (start disk log) found s₁ →
      Runs (removeUnused store) { s₁ with catalog := found } removal s₂ →
      Rewrites .default root found removal s₁.disk s₂.disk := by
  obtain ⟨hbuilt, hpruned, hopen, hfile, hlonger⟩ := hlengthens
  intro hrewrites
  obtain ⟨-, after, hafter, hcases, -⟩ := (hrewrites _ _ _ _
    (Task.runs_of_exec (e := built disk log) rfl .empty hbuilt)
    (Task.runs_of_exec (e := pruned disk log store) rfl nothing hpruned)).file _ _
    (holdsDefinitions hopen hfile)
  rw [hafter] at hlonger
  rcases hcases with rfl | hloses
  · exact Nat.lt_irrefl _ hlonger
  · exact Nat.lt_asymm hlonger hloses.shorter

theorem lengthens_linkedBack : Lengthens linkedBack none throughMissing := by
  unfold Lengthens
  decide +kernel

theorem lengthens_linkedTo : Lengthens linkedTo log beside := by
  unfold Lengthens
  decide +kernel

end Overwritten

/-- A pass can make a definition file longer: a backup path with a step up may lead to a directory
that was there all along although the path led nowhere, from where a link leads a copy back to the
file; and the log may be the file itself. -/
theorem not_rewrites :
    (¬ ∀ (settings : IndexSettings) (root : Path) (store : Backup.Store) (s₀ s₁ s₂ : Session)
      (built counted : Catalog) (removal : Removal), root.isAbsolute = true →
      (∀ place, s₀.disk.openDirectory store.directory ≠ .ok place) →
      (∃ directory resolved, s₀.disk.resolve store.directory = .ok directory
        ∧ s₀.disk.resolve root = .ok resolved ∧ ¬ resolved.place <+: directory.place
        ∧ ¬ directory.place <+: resolved.place) →
      s₀.trail.log = none → Runs (Index.build settings root) s₀ built s₁ →
      (∀ r, (counted.get? r).map (·.files) = (built.get? r).map (·.files)) →
      Runs (removeUnused store) { s₁ with catalog := counted } removal s₂ →
      Rewrites settings root counted removal s₁.disk s₂.disk)
    ∧ ¬ ∀ (settings : IndexSettings) (root : Path) (store : Backup.Store) (s₀ s₁ s₂ : Session)
      (built counted : Catalog) (removal : Removal), root.isAbsolute = true →
      store.IsApart s₀.disk root → Runs (Index.build settings root) s₀ built s₁ →
      (∀ r, (counted.get? r).map (·.files) = (built.get? r).map (·.files)) →
      Runs (removeUnused store) { s₁ with catalog := counted } removal s₂ →
      Rewrites settings root counted removal s₁.disk s₂.disk := by
  constructor
  · intro hrewrites
    refine Overwritten.lengthens_linkedBack.not_forall_rewrites
      fun s₁ s₂ found removal hbuild hremove => ?_
    exact hrewrites _ _ _ _ _ _ _ _ _ rfl Overwritten.isMissing Overwritten.places rfl hbuild
      (fun _ => rfl) hremove
  · intro hrewrites
    refine Overwritten.lengthens_linkedTo.not_forall_rewrites
      fun s₁ s₂ found removal hbuild hremove => ?_
    exact hrewrites _ _ _ _ _ _ _ _ _ rfl Overwritten.isApart hbuild (fun _ => rfl) hremove

end Removal

end ResourcePruner
