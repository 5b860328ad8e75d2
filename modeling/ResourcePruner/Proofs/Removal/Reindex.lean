import ResourcePruner.Proofs.Removal.Passes

/-!
# Indexing after a pass

A resource that a pass reports as removed should be found nowhere when the project is indexed again.
That is so unless one of its definition files declares it twice, once on lines that went and once on
lines that it shares with a resource in use: the file was pruned of it all the same, and the
resource counts as removed (`Removal.contains_again_iff`).
-/

namespace ResourcePruner

open Disk (Extends Same IsChange)
open Index (declaredIn)

namespace Removal

open ResourcePruner.Task (Runs)

section

variable {settings : IndexSettings} {root goal : Path} {store : Backup.Store} {scene : Scene}
  {s s' : Session} {built counted again : Catalog} {removal : Removal} {r : Resource} {file : Path}

/-- The content declares no more than before. -/
def Narrows (_place : Place) (before after : Bytes) : Prop :=
  declaredIn after ⊆ declaredIn before

instance : IsChange Narrows where
  refl _ _ := fun _ => id
  trans hfirst hsecond := fun _ hr => hfirst (hsecond hr)

/-- A file declares a removed resource afterwards if the resource shared its lines there. -/
theorem declaredIn_of_removed (hhas : scene.Has s)
    (hlast : Extends s'.disk scene.last) (hbackups : scene.backups = some store.directory)
    (hlies : s.catalog.LiesOn scene.first) (hruns : Runs (removeUnused store) s removal s')
    (hr : r ∈ removal.removed) (hkind : r.category.isInline = true)
    (hfile : s.catalog.Has r file) {place : Place} (hstands : scene.first.Stands file place)
    (hshown : ¬ scene.hidden place) {before : Bytes}
    (hbefore : s.disk.get? place = some (.file before)) :
    ∃ text after, Utf8.decode? before = .ok text ∧ s'.disk.get? place = some (.file after)
      ∧ (r ∈ declaredIn after ↔
        r ∈ (Pruning.ofLines (doomedBy s.catalog file) (Text.linesWithEnds text)).shared) := by
  obtain ⟨hdoomed, text, -, hdecode, hended, -, hafter⟩ :=
    get?_of_removed hhas hlast hbackups hlies hruns hr hkind hfile hstands hshown hbefore
  refine ⟨text, _, hdecode, hafter, ?_⟩
  rw [Prunes.declaredIn_eq hdecode, Pruning.mem_resourcesOn_lines_iff hended hdoomed]

/-! ## Two builds around a pass -/

/-- A pass between two builds, seen against a scene in which nothing that is indexed is hidden. -/
structure Reindexes (settings : IndexSettings) (root goal : Path) (store : Backup.Store)
    (scene : Scene) (s s' : Session) (built again : Catalog) : Prop
    extends Passes settings root goal store scene s s' built where
  isBacked_again : again.IsBacked
  again_iff : ∀ r file, again.Has r file ↔ ∃ stem place content,
    Index.Indexes settings root goal stem file place ∧ s'.disk.get? place = some (.file content)
      ∧ r ∈ Index.resourcesOf settings stem file content

namespace Reindexes

/-- What is found after the pass was there before. -/
theorem has_of_again (h : Reindexes settings root goal store scene s s' built again)
    (hcounted : ∀ r, (counted.get? r).map (·.files) = (built.get? r).map (·.files))
    (hlies : counted.LiesOn scene.first)
    (hruns : Runs (removeUnused store) { s with catalog := counted } removal s')
    (hfile : again.Has r file) : counted.Has r file := by
  have hframe : Frame scene (Deletes counted scene.first) Narrows
      { s with catalog := counted } s' :=
    frame_removeUnused (h.has_counted counted) h.backups hlies
      (fun _ _ _ _ _ _ _ _ _ hprunes => hprunes.declaredIn_subset) hruns
  obtain ⟨stem, place, after, hindexes, hafter, hr⟩ := (h.again_iff r file).mp hfile
  obtain ⟨before, hbefore, hnarrows⟩ :=
    (hframe.evolves h.last).back place after (h.shown _ _ _ hindexes) hafter
  exact (Catalog.has_congr hcounted).mpr ((h.built_iff r file).mpr
    ⟨stem, place, before, hindexes, hbefore, Index.resourcesOf_subset hnarrows hr⟩)

/-- A file of a removed resource that is indexed stands where it did, and declares the resource
exactly if the resource shared its lines there. -/
theorem exists_shared_iff (h : Reindexes settings root goal store scene s s' built again)
    (hcounted : ∀ r, (counted.get? r).map (·.files) = (built.get? r).map (·.files))
    (hlies : counted.LiesOn scene.first)
    (hruns : Runs (removeUnused store) { s with catalog := counted } removal s')
    (hr : r ∈ removal.removed) (hkind : r.category.isInline = true) (hfile : counted.Has r file) :
    ∃ bytes text, s.disk.read file = .ok bytes ∧ Utf8.decode? bytes = .ok text
      ∧ (again.Has r file ↔
        r ∈ (Pruning.ofLines (doomedBy counted file) (Text.linesWithEnds text)).shared) := by
  obtain ⟨stem, place, before, hindexes, hbefore, hmem⟩ :=
    (h.built_iff r file).mp ((Catalog.has_congr hcounted).mp hfile)
  obtain ⟨hlayout, hdrawable, hdefinition, -⟩ := (Index.mem_resourcesOf_iff hkind).mp hmem
  obtain ⟨text, after, hdecode, hafter, hiff⟩ :=
    declaredIn_of_removed (h.has_counted counted) h.last
    h.backups hlies hruns hr hkind hfile (h.stands hindexes hbefore)
      (h.shown _ _ _ hindexes) hbefore
  have hstands := hindexes.stands h.isAbsolute h.locates (.refl _) hbefore
  obtain ⟨found, hfound, rfl⟩ := hstands.locates
  refine ⟨before, text, Disk.read_of_locates hstands.isAbsolute
    (hindexes.isLookedUp hlayout hdrawable) hfound hbefore, hdecode, ?_⟩
  rw [h.again_iff, ← hiff]
  constructor
  · rintro ⟨stem', place', content, hindexes', hcontent, hagain⟩
    obtain ⟨rfl, rfl⟩ := hindexes.unique hindexes'
    obtain rfl := Entry.file.inj (Option.some.inj (hafter.symm.trans hcontent))
    exact ((Index.mem_resourcesOf_iff hkind).mp hagain).2.2.2
  · intro hdeclared
    exact ⟨stem, found.place, after, hindexes, hafter, (Index.mem_resourcesOf_iff hkind).mpr
      ⟨hlayout, hdrawable, hdefinition, hdeclared⟩⟩

/-- A removed resource that is found again is declared on lines of a file. -/
theorem isInline_of_again (h : Reindexes settings root goal store scene s s' built again)
    (hcounted : ∀ r, (counted.get? r).map (·.files) = (built.get? r).map (·.files))
    (hlies : counted.LiesOn scene.first)
    (hruns : Runs (removeUnused store) { s with catalog := counted } removal s')
    (hr : r ∈ removal.removed) (hfile : again.Has r file) : r.category.isInline = true := by
  have hcount := h.has_of_again hcounted hlies hruns hfile
  obtain ⟨stem, place, before, hindexes, hbefore, -⟩ :=
    (h.built_iff r file).mp ((Catalog.has_congr hcounted).mp hcount)
  obtain ⟨stem', place', after, hindexes', hafter, -⟩ := (h.again_iff r file).mp hfile
  obtain ⟨rfl, rfl⟩ := hindexes.unique hindexes'
  refine Bool.of_not_eq_false fun hkind => ?_
  exact lacks_of_removed (h.has_counted counted) h.last h.backups hlies hruns hr hkind hcount
    (h.stands hindexes hbefore) (h.shown _ _ _ hindexes) after hafter

end Reindexes

/-- Two builds around a pass are seen against one scene if the root is a directory; if it is none,
nothing is built. -/
theorem exists_reindexes {s₀ s₁ s₂ s₃ : Session} (habsolute : root.isAbsolute = true)
    (hapart : store.IsApart s₀.disk root) (hlog : s₀.KeepsLogApart settings root)
    (hbuild : Runs (Index.build settings root) s₀ built s₁)
    (hcounted : ∀ r, (counted.get? r).map (·.files) = (built.get? r).map (·.files))
    (hremove : Runs (removeUnused store) { s₁ with catalog := counted } removal s₂)
    (hagain : Runs (Index.build settings root) s₂ again s₃) :
    counted.LiesOn s₁.disk ∧ counted.IsBacked ∧
      ((∃ goal scene, Reindexes settings root goal store scene s₁ s₂ built again)
        ∨ PassesOver root s₁ s₂ counted removal) := by
  obtain ⟨hlies, hbacked⟩ := liesOn_of_counted habsolute hapart hlog hbuild hcounted
  refine ⟨hlies, hbacked, ?_⟩
  rcases exists_passes habsolute hapart hlog hbuild hcounted hremove (.refl _) with
    ⟨goal, scene, hend, h⟩ | hnone
  · -- The pass leads on to the second build, so that the scene may end there.
    have h₂₃ : Frame scene Nowhere Same s₂ s₃ :=
      .of_steps (h.frame (h.first ▸ hlies) hremove).has hagain (Index.steps_build settings root)
    rcases exists_passes habsolute hapart hlog hbuild hcounted hremove h₂₃.stays with
      ⟨goal', scene', hend', h'⟩ | hnone
    · have h₁₂ := h'.frame (h'.first ▸ hlies) hremove
      have hlast₃ : Extends s₃.disk scene'.last := hend' ▸ .refl _
      exact .inl ⟨goal', scene', { h' with
        isBacked_again := Index.isBacked_build habsolute h₁₂.has hlast₃ hagain
        again_iff := fun r file => Index.has_build_iff habsolute h₁₂.has hlast₃
          (h'.locates.mono h₁₂.stays) h'.isLookedUp (h₁₂.stays.directory _ h'.directory) h'.shown
            hagain }⟩
    · exact .inr hnone
  · exact .inr hnone

/-- **A removed resource is found again exactly when it shared a line.** The catalog is built,
counted in any way and handed to a pass; what is indexed afterwards still holds a resource that the
pass reports as removed if and only if one of its files kept a line of it, which a declaration in
use stands on as well, while other lines of it went. -/
theorem contains_again_iff {s₀ s₁ s₂ s₃ : Session} {built counted again : Catalog}
    {removal : Removal} (habsolute : root.isAbsolute = true)
    (hapart : store.IsApart s₀.disk root) (hlog : s₀.KeepsLogApart settings root)
    (hbuild : Runs (Index.build settings root) s₀ built s₁)
    (hcounted : ∀ r, (counted.get? r).map (·.files) = (built.get? r).map (·.files))
    (hremove : Runs (removeUnused store) { s₁ with catalog := counted } removal s₂)
    (hagain : Runs (Index.build settings root) s₂ again s₃) :
    ∀ r ∈ removal.removed, again.contains r = true ↔
      ∃ file bytes text, counted.Has r file ∧ s₁.disk.read file = .ok bytes
        ∧ Utf8.decode? bytes = .ok text
        ∧ r ∈ (Pruning.ofLines (doomedBy counted file) (Text.linesWithEnds text)).shared := by
  obtain ⟨hlies, -, ⟨goal, scene, h⟩ | hnone⟩ :=
    exists_reindexes habsolute hapart hlog hbuild hcounted hremove hagain
  · have hlies : counted.LiesOn scene.first := h.first ▸ hlies
    intro r hr
    constructor
    · intro hcontains
      obtain ⟨file, hfile⟩ := h.isBacked_again r hcontains
      have hcount := h.has_of_again hcounted hlies hremove hfile
      have hkind := h.isInline_of_again hcounted hlies hremove hr hfile
      obtain ⟨bytes, text, hread, hdecode, hiff⟩ :=
        h.exists_shared_iff hcounted hlies hremove hr hkind hcount
      exact ⟨file, bytes, text, hcount, hread, hdecode, hiff.mp hfile⟩
    · rintro ⟨file, bytes, text, hcount, hread, hdecode, hshared⟩
      have hkind := (doomedBy_eq_true.mp (Pruning.doomed_of_mem_shared hshared)).1
      obtain ⟨bytes', text', hread', hdecode', hiff⟩ :=
        h.exists_shared_iff hcounted hlies hremove hr hkind hcount
      obtain rfl := Except.ok.inj (hread.symm.trans hread')
      obtain rfl := Except.ok.inj (hdecode.symm.trans hdecode')
      exact Catalog.contains_of_has (hiff.mpr hshared)
  · rw [hnone.eq_nothing]
    exact nofun

end

/-! ## A resource that is found again -/

namespace Twice

/-- A color declared on a line of its own, and once more beside a dimension. -/
def text : Text :=
  "<color name=\"x\">#0</color>\n<color name=\"x\">#1</color><dimen name=\"d\">1</dimen>\n"

def file : Path := ⟨.root, ["p", "res", "values", "a.xml"]⟩

def color : Resource := ⟨.color, "x"⟩

def root : Path := ⟨.root, ["p"]⟩

def store : Backup.Store := ⟨root, ⟨.root, ["b"]⟩⟩

/-- A project with that file, an empty backup directory beside it, and a log. -/
def start : Session where
  disk := (((((Disk.empty []).put ["b"] .directory).put ["p"] .directory).put ["p", "res"]
    .directory).put ["p", "res", "values"] .directory).put file.place (.file (Utf8.encode text))
  clock := ⟨2024, 1, 1, 0, 0, 0, 0, by decide, by decide⟩
  trail := .start (some ⟨.root, ["log"]⟩) "run"
  catalog := .empty
  roots := none
  patience := none

def built : Except Failure Catalog × Session :=
  Task.exec (Index.build .default root) start

/-- Only the dimension is in use. -/
def counted : Catalog :=
  (built.1.toOption.getD .empty).markUsed ⟨.dimen, "d"⟩

theorem files_counted (r : Resource) :
    (counted.get? r).map (·.files) = ((built.1.toOption.getD .empty).get? r).map (·.files) := by
  rw [counted, Catalog.get?_markUsed]
  split
  · rw [Option.map_map]
    rfl
  · rfl

def pruned : Except Failure Removal × Session :=
  Task.exec (removeUnused store) { built.2 with catalog := counted }

def again : Except Failure Catalog × Session :=
  Task.exec (Index.build .default root) pruned.2

theorem isApart : store.IsApart start.disk root := by
  refine ⟨⟨rfl, ?_⟩, fun place hopen => ?_, ⟨.root, ["b"]⟩, root, rfl, rfl, ?_, ?_⟩
  · refine List.forall_mem_singleton.mpr ⟨?_, ?_, ?_⟩ <;> decide
  · obtain rfl := Except.ok.inj ((show start.disk.openDirectory store.directory = .ok ["b"] from
      rfl).symm.trans hopen)
    decide +kernel
  · decide +kernel
  · decide +kernel

theorem keepsLogApart : start.KeepsLogApart .default root := by
  rintro log ⟨rfl⟩
  refine ⟨rfl, ⟨.root, ["log"]⟩, root, rfl, rfl, ?_⟩
  rintro stem file ⟨⟨dirs, names, -, -, -, hplace, -⟩, -⟩
  have hfirst : some ("log" : Text) = some ("p" : Text) := congrArg List.head? hplace
  exact absurd hfirst (by decide +kernel)

end Twice

/-- The color of which one line went and one stayed is reported as removed, and is found again. -/
theorem contains_again_of_twice :
    Twice.color ∈ (Twice.pruned.1.toOption.getD nothing).removed
      ∧ (Twice.again.1.toOption.getD .empty).contains Twice.color = true := by
  have hok : (Twice.built.1.toOption.isSome = true ∧ Twice.pruned.1.toOption.isSome = true
      ∧ Twice.again.1.toOption.isSome = true)
      ∧ Twice.color ∈ (Twice.pruned.1.toOption.getD nothing).removed
      ∧ (Twice.counted.get? Twice.color).map (·.files) = some [Twice.file]
      ∧ Twice.color ∈ (Pruning.ofLines (doomedBy Twice.counted Twice.file)
          (Text.linesWithEnds Twice.text)).shared := by
    decide +kernel
  obtain ⟨⟨hbuilt, hpruned, hagain⟩, hremoved, hfiles, hshared⟩ := hok
  have hbuild : Runs (Index.build .default Twice.root) Twice.start
      (Twice.built.1.toOption.getD .empty) Twice.built.2 := Task.runs_of_exec
      (e := Twice.built) rfl .empty hbuilt
  have hremove : Runs (removeUnused Twice.store) { Twice.built.2 with catalog := Twice.counted }
      (Twice.pruned.1.toOption.getD nothing) Twice.pruned.2 := Task.runs_of_exec
      (e := Twice.pruned) rfl nothing hpruned
  have hindex : Runs (Index.build .default Twice.root) Twice.pruned.2
      (Twice.again.1.toOption.getD .empty) Twice.again.2 := Task.runs_of_exec
      (e := Twice.again) rfl .empty hagain
  refine ⟨hremoved,
    (contains_again_iff rfl Twice.isApart Twice.keepsLogApart hbuild Twice.files_counted
    hremove hindex _ hremoved).mpr ?_⟩
  obtain ⟨record, hrecord, hmap⟩ := Option.map_eq_some_iff.mp hfiles
  refine ⟨Twice.file, Utf8.encode Twice.text, Twice.text, ⟨record, hrecord, ?_⟩, ?_, ?_, hshared⟩
  · rw [hmap]
    exact List.mem_cons_self
  · rfl
  · rfl

end Removal

end ResourcePruner
