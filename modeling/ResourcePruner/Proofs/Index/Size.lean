import Mathlib.Algebra.Order.BigOperators.Group.List
import Mathlib.Algebra.Order.Group.Nat
import Mathlib.Algebra.Ring.Nat
import Mathlib.Data.List.Perm.Subperm
import ResourcePruner.Proofs.Index.Standing
import ResourcePruner.Proofs.Text.Lines
import ResourcePruner.Run.Rounds

/-!
# How many resources a disk can have

A line declares no more resources than it has symbols, and a file has no more symbols on its lines
than bytes. So the files that are indexed have no more resources than bytes, but for those that are
resources themselves (`Index.length_le_of_indexed`).
-/

namespace ResourcePruner

/-- There are no more known resources than are counted. -/
theorem Catalog.length_le_totalOf_counts {catalog : Catalog} {list : List Resource}
    (hnodup : list.Nodup) (hcontains : ∀ r ∈ list, catalog.contains r = true) :
    list.length ≤ totalOf catalog.counts := by
  have hsubset : list ⊆ Category.all.flatMap fun category =>
      (catalog.ofCategory category).map Prod.fst := by
    intro r hr
    obtain ⟨record, hget⟩ := Option.isSome_iff_exists.mp (hcontains r hr)
    have hmem : (r, record) ∈ catalog.ofCategory r.category :=
      List.mem_filter.mpr ⟨OrderedMap.mem_entries_iff.mpr hget, by simp⟩
    exact List.mem_flatMap.mpr ⟨r.category, Category.mem_all _, List.mem_map.mpr ⟨_, hmem, rfl⟩⟩
  refine Nat.le_trans (hnodup.subperm hsubset).length_le (Nat.le_of_eq ?_)
  rw [List.length_flatMap, totalOf, counts, List.map_map]
  congr 1
  exact List.map_congr_left fun category _ => by simp

/-! ## Declarations on a line -/

namespace Declaration

theorem length_insertByPosition (d : Declaration) (others : List Declaration) :
    (insertByPosition d others).length = others.length + 1 := by
  induction others with
  | nil => rfl
  | cons other rest ih =>
      rw [insertByPosition]
      split
      · rfl
      · rw [List.length_cons, ih, List.length_cons]

theorem length_ofCategories (categories : List Category) (line : Text) :
    (ofCategories categories line).length
      = (categories.flatMap (ofCategory · line)).length := by
  rw [ofCategories]
  induction categories.flatMap (ofCategory · line) with
  | nil => rfl
  | cons d rest ih => rw [List.foldr_cons, length_insertByPosition, ih, List.length_cons]

/-- Opening tags of a category that do not overlap have no more symbols than the line. -/
theorem length_ofCategoryFrom (category : Category) (skipped position : Nat) (text : Text) :
    category.openingTag.length * (ofCategoryFrom category skipped position text).length
      ≤ text.length - skipped := by
  fun_induction ofCategoryFrom category skipped position text with
  | case1 => simp
  | case2 skipped position s rest ih =>
      rw [List.length_cons]
      omega
  | case3 position s rest tag htag value name hend => simp
  | case4 position s rest tag htag value name hend others hname ih =>
      change category.openingTag.length * others.length ≤ _ at ih
      rw [List.length_cons]
      omega
  | case5 position s rest tag htag value name hend others hname ih =>
      change category.openingTag.length * others.length ≤ _ at ih
      -- The name ends before the line does.
      have hname : name.length < value.length :=
        Nat.lt_of_le_of_ne (List.takeWhile_prefix _).length_le hend
      have hvalue : value.length = (s :: rest).length - tag.length := List.length_drop
      have htag : category.openingTag.length = tag.length := rfl
      rw [List.length_cons, Nat.mul_succ]
      rw [List.length_cons] at hvalue ⊢
      omega
  | case6 position s rest tag htag ih =>
      rw [List.length_cons]
      omega

theorem length_resourcesOn_le (line : Text) : (resourcesOn line).length ≤ line.length := by
  have hcategory : ∀ category : Category, 5 * (ofCategory category line).length ≤ line.length := by
    intro category
    refine Nat.le_trans (Nat.mul_le_mul_right _ ?_) (length_ofCategoryFrom category 0 0 line)
    cases category <;> decide
  rw [resourcesOn, List.length_map, onLine, length_ofCategories, List.length_flatMap]
  have hinline : Category.inlineCategories = [.string, .dimen, .color, .stringArray, .style] := rfl
  have hstring := hcategory .string
  have hdimen := hcategory .dimen
  have hcolor := hcategory .color
  have harray := hcategory .stringArray
  have hstyle := hcategory .style
  simp only [hinline, List.map_cons, List.map_nil, List.sum_cons, List.sum_nil]
  omega

end Declaration

/-! ## Symbols of a file -/

namespace Utf8

/-- A byte ends one piece at most, unless one is open before. -/
theorem length_step (opened : Option Sequence) (b : UInt8) :
    (step opened b).1.length + (step opened b).2.toList.length ≤ 1 + opened.toList.length := by
  have hstart : (start b).1.length + (start b).2.toList.length ≤ 1 := by
    unfold start
    split
    · exact Nat.le_refl 1
    · split <;> exact Nat.le_refl 1
  cases opened with
  | none => exact hstart
  | some s =>
      unfold step
      simp only
      split
      · split <;> simp
      · simp only [List.length_cons, Option.toList_some, List.length_nil]
        omega

theorem length_piecesAfter (opened : Option Sequence) (bytes : Bytes) :
    (piecesAfter opened bytes).length ≤ bytes.length + opened.toList.length := by
  induction bytes generalizing opened with
  | nil => cases opened <;> simp [piecesAfter]
  | cons b rest ih =>
      have hstep := length_step opened b
      have hrest := ih (step opened b).2
      rw [piecesAfter, List.length_append, List.length_cons]
      omega

theorem length_decodeReplacing (bytes : Bytes) : (decodeReplacing bytes).length ≤ bytes.length := by
  rw [decodeReplacing, List.length_map]
  exact length_piecesAfter none bytes

end Utf8

namespace Text

theorem sum_length_lines (text : Text) : ((lines text).map List.length).sum ≤ text.length := by
  fun_induction lines text with
  | case1 => exact Nat.le_refl 0
  | case2 rest ih =>
      simp only [List.map_cons, List.length_nil, List.sum_cons, List.length_cons]
      omega
  | case3 s rest _ hbreak ih =>
      simp only [List.map_cons, List.length_nil, List.sum_cons, List.length_cons]
      omega
  | case4 s rest _ hbreak hnone ih => simp
  | case5 s rest _ hbreak line others hlines ih =>
      rw [hlines, List.map_cons, List.sum_cons] at ih
      simp only [List.map_cons, List.sum_cons, List.length_cons]
      omega

end Text

theorem Index.length_declaredIn_le (content : Bytes) :
    (declaredIn content).length ≤ content.length := by
  rw [declaredIn, List.length_flatMap, searchedLines]
  refine Nat.le_trans (List.sum_le_sum fun line _ => Declaration.length_resourcesOn_le line) ?_
  refine Nat.le_trans (Text.sum_length_lines _) ?_
  exact Nat.le_trans (Text.length_withUniformBreaks _) (Utf8.length_decodeReplacing content)

namespace Index

variable (settings : IndexSettings) (root goal : Path)

theorem length_resourcesOf_le (stem : Text) (file : Path) (content : Bytes) :
    (resourcesOf settings stem file content).length ≤ content.length + 1 := by
  have hderived : ∀ (category : Category) (name : Option Text),
      (name.toList.map fun name => (⟨category, name⟩ : Resource)).length ≤ content.length + 1 := by
    intro category name
    cases name <;> simp
  unfold resourcesOf
  split
  · exact hderived _ _
  · split
    · exact hderived _ _
    · split
      · exact Nat.le_succ_of_le (length_declaredIn_le content)
      · exact Nat.zero_le _

/-- There are no more resources at a place than its file has bytes, but for one. -/
theorem exists_resources (entry : Place × Entry) : ∃ found : List Resource,
    found.length ≤ Run.entrySize entry.2 + 1 ∧ ∀ stem file content, entry.2 = .file content →
      Indexes settings root goal stem file entry.1 → resourcesOf settings stem file content
        ⊆ found := by
  by_cases h : ∃ stem file content, entry.2 = .file content
    ∧ Indexes settings root goal stem file entry.1
  · obtain ⟨stem, file, content, hfile, hindexes⟩ := h
    refine ⟨resourcesOf settings stem file content, ?_,
      fun stem' file' content' hfile' hindexes' => ?_⟩
    · rw [hfile]
      exact length_resourcesOf_le settings stem file content
    · obtain rfl := hindexes.file_unique hindexes'
      obtain ⟨rfl, -⟩ := hindexes.unique hindexes'
      cases hfile.symm.trans hfile'
      exact List.Subset.refl _
  · exact ⟨[], Nat.zero_le _, fun stem file content hfile hindexes =>
      absurd ⟨stem, file, content, hfile, hindexes⟩ h⟩

/-- Files that are indexed have no more resources than bytes, but for one each. -/
theorem length_le_of_indexed {disk : Disk} {list : List Resource} (hnodup : list.Nodup)
    (hlist : ∀ r ∈ list, ∃ stem file place content, Indexes settings root goal stem file place
      ∧ disk.get? place = some (.file content) ∧ r ∈ resourcesOf settings stem file content) :
    list.length ≤ (disk.contents.map fun entry => Run.entrySize entry.2 + 1).sum := by
  choose found hlength hfound using exists_resources settings root goal
  have hsubset : list ⊆ disk.contents.flatMap found := by
    intro r hr
    obtain ⟨stem, file, place, content, hindexes, hfile, hmem⟩ := hlist r hr
    exact List.mem_flatMap.mpr ⟨_, Disk.mem_contents (Disk.ne_nil_of_get? (by simp) hfile) hfile,
      hfound _ _ _ _ rfl hindexes hmem⟩
  refine Nat.le_trans (hnodup.subperm hsubset).length_le ?_
  rw [List.length_flatMap]
  exact List.sum_le_sum fun entry _ => hlength entry

end Index

end ResourcePruner
