import ResourcePruner.Catalog

/-!
# The files in a catalog

`Catalog.Has` says that a resource has a file in its record; declaring adds one such pair
(`Catalog.has_declare`). `Catalog.Adds` bounds the pairs that a stretch of indexing adds, from above
and from below.
-/

namespace ResourcePruner

namespace Catalog

/-- The file is one of the resource's. -/
def Has (catalog : Catalog) (r : Resource) (file : Path) : Prop :=
  ∃ record, catalog.get? r = some record ∧ file ∈ record.files

/-- Every known resource has a file. -/
def IsBacked (catalog : Catalog) : Prop :=
  ∀ r, catalog.contains r = true → ∃ file, catalog.Has r file

theorem contains_of_has {catalog : Catalog} {r : Resource} {file : Path}
    (hhas : catalog.Has r file) : catalog.contains r = true := by
  obtain ⟨record, hget, -⟩ := hhas
  rw [contains, hget]
  rfl

/-- The files do not depend on the counts. -/
theorem has_congr {catalog other : Catalog}
    (hfiles : ∀ r, (catalog.get? r).map (·.files) = (other.get? r).map (·.files)) {r : Resource}
    {file : Path} : catalog.Has r file ↔ other.Has r file := by
  have hhas : ∀ c : Catalog, c.Has r file ↔ ∃ files, (c.get? r).map (·.files) = some files
      ∧ file ∈ files := by
    intro c
    constructor
    · rintro ⟨record, hget, hfile⟩
      exact ⟨record.files, by rw [hget]; rfl, hfile⟩
    · rintro ⟨files, hmap, hfile⟩
      obtain ⟨record, hget, rfl⟩ := Option.map_eq_some_iff.mp hmap
      exact ⟨record, hget, hfile⟩
  rw [hhas, hhas, hfiles]

theorem mem_unused {catalog : Catalog} {r : Resource} {record : Record} :
    (r, record) ∈ catalog.unused ↔ catalog.get? r = some record ∧ record.isUsed = false := by
  rw [unused, List.mem_filter, Bool.not_eq_true']
  exact and_congr_left' OrderedMap.mem_entries_iff

theorem has_of_mem_unused {catalog : Catalog} {entry : Resource × Record} {file : Path}
    (hentry : entry ∈ catalog.unused) (hfile : file ∈ entry.2.files) :
    catalog.Has entry.1 file :=
  ⟨entry.2, (mem_unused.mp hentry).1, hfile⟩

theorem get?_declare (catalog : Catalog) (r : Resource) (file : Path) (other : Resource) :
    (catalog.declare r file).get? other =
      if other = r then some (((catalog.get? r).getD .fresh).addFile file)
      else catalog.get? other := by
  rw [declare, get?_addFile, get?_register]
  by_cases hother : other = r
  · rw [if_pos hother, if_pos hother, if_pos hother, Option.map_some]
  · rw [if_neg hother, if_neg hother, if_neg hother]

theorem Record.mem_files_addFile {record : Record} {file other : Path} :
    other ∈ (record.addFile file).files ↔ other ∈ record.files ∨ other = file := by
  unfold Record.addFile
  split
  · rename_i hmem
    refine ⟨.inl, fun h => h.elim id ?_⟩
    rintro rfl
    exact hmem
  · simp

theorem has_declare {catalog : Catalog} {r other : Resource} {file f : Path} :
    (catalog.declare r file).Has other f ↔ catalog.Has other f ∨ (other = r ∧ f = file) := by
  unfold Has
  rw [get?_declare]
  by_cases hother : other = r
  · subst hother
    rw [if_pos rfl]
    cases hget : catalog.get? other with
    | none => simp [Record.mem_files_addFile, Record.fresh]
    | some record => simp [Record.mem_files_addFile]
  · rw [if_neg hother]
    simp [hother]

theorem IsBacked.declare {catalog : Catalog} (hbacked : catalog.IsBacked) (r : Resource)
    (file : Path) : (catalog.declare r file).IsBacked := by
  intro other hcontains
  by_cases hother : other = r
  · exact ⟨file, has_declare.mpr (.inr ⟨hother, rfl⟩)⟩
  · rw [contains, get?_declare, if_neg hother] at hcontains
    obtain ⟨f, hhas⟩ := hbacked other hcontains
    exact ⟨f, has_declare.mpr (.inl hhas)⟩

theorem isBacked_empty : empty.IsBacked := nofun

theorem not_has_empty {r : Resource} {file : Path} : ¬ empty.Has r file := nofun

/-- What lies between the two catalogs: only such files as `upper` says, and all that `lower`
says. -/
structure Adds (upper lower : Resource → Path → Prop) (catalog more : Catalog) : Prop where
  sound : ∀ r file, more.Has r file → catalog.Has r file ∨ upper r file
  complete : ∀ r file, catalog.Has r file ∨ lower r file → more.Has r file
  isBacked : catalog.IsBacked → more.IsBacked

namespace Adds

theorem refl {upper lower : Resource → Path → Prop} (hlower : ∀ r file, ¬ lower r file)
    (catalog : Catalog) : Adds upper lower catalog catalog :=
  ⟨fun _ _ => .inl, fun r file h => h.resolve_right (hlower r file), id⟩

theorem declare (catalog : Catalog) (r : Resource) (file : Path) :
    Adds (fun r' f => r' = r ∧ f = file) (fun r' f => r' = r ∧ f = file) catalog
      (catalog.declare r file) :=
  ⟨fun _ _ => has_declare.mp, fun _ _ => has_declare.mpr, fun h => h.declare r file⟩

theorem imp {upper lower upper' lower' : Resource → Path → Prop} {catalog more : Catalog}
    (hadds : Adds upper lower catalog more) (hupper : ∀ r file, upper r file → upper' r file)
    (hlower : ∀ r file, lower' r file → lower r file) : Adds upper' lower' catalog more :=
  ⟨fun r file h => (hadds.sound r file h).imp_right (hupper r file),
    fun r file h => hadds.complete r file (h.imp_right (hlower r file)), hadds.isBacked⟩

theorem trans {upper lower upper' lower' : Resource → Path → Prop} {first second third : Catalog}
    (hfirst : Adds upper lower first second) (hsecond : Adds upper' lower' second third) :
    Adds (fun r file => upper r file ∨ upper' r file) (fun r file => lower r file ∨ lower' r file)
      first third := by
  refine ⟨fun r file h => ?_, fun r file h => ?_, fun h => hsecond.isBacked (hfirst.isBacked h)⟩
  · rcases hsecond.sound r file h with h | h
    · exact (hfirst.sound r file h).imp_right .inl
    · exact .inr (.inr h)
  · refine hsecond.complete r file ?_
    rcases h with h | h | h
    · exact .inl (hfirst.complete r file (.inl h))
    · exact .inl (hfirst.complete r file (.inr h))
    · exact .inr h

/-- Along a list, what is added for each of its items is added. -/
theorem foldl {α : Type} {f : Catalog → α → Catalog} {upper lower : α → Resource → Path → Prop}
    {list : List α} (hf : ∀ a ∈ list, ∀ catalog, Adds (upper a) (lower a) catalog (f catalog a))
    (catalog : Catalog) :
    Adds (fun r file => ∃ a ∈ list, upper a r file) (fun r file => ∃ a ∈ list, lower a r file)
      catalog (list.foldl f catalog) := by
  induction list generalizing catalog with
  | nil => exact refl (fun _ _ => nofun) catalog
  | cons a rest ih =>
      obtain ⟨ha, hrest⟩ := List.forall_mem_cons.mp hf
      exact ((ha catalog).trans (ih hrest _)).imp (fun r file h => by simpa using h)
        fun r file h => by simpa using h

end Adds

end Catalog

end ResourcePruner
