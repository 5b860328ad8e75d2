import ResourcePruner.Path

/-!
# Paths in order

Sorting loses no absolute path and repeats none: paths are told apart by the key that orders them,
except that a relative one can have the parts of an absolute one's key.
-/

namespace ResourcePruner

namespace Path

/-- Every path that has been sorted in so far stands under its own key. -/
def AreKeyed (found : OrderedMap Place Path) : Prop :=
  ∀ key path, found.get? key = some path → path.orderKey = key

theorem areKeyed_empty : AreKeyed OrderedMap.empty := nofun

theorem areKeyed_foldl (paths : List Path) {found : OrderedMap Place Path}
    (hkeyed : AreKeyed found) :
    AreKeyed (paths.foldl (fun found path => found.insert path.orderKey path) found) := by
  induction paths generalizing found with
  | nil => exact hkeyed
  | cons path rest ih =>
      refine ih fun key other hother => ?_
      rw [OrderedMap.get?_insert] at hother
      split at hother
      · rename_i hkey
        cases hother
        exact hkey
      · exact hkeyed key other hother

theorem mem_of_get?_foldl {paths : List Path} {found : OrderedMap Place Path} {key : Place}
    {path : Path}
    (hpath : (paths.foldl (fun found path => found.insert path.orderKey path) found).get? key
      = some path) :
    path ∈ paths ∨ found.get? key = some path := by
  induction paths generalizing found with
  | nil => exact .inr hpath
  | cons first rest ih =>
      rcases ih hpath with hrest | hfound
      · exact .inl (List.mem_cons_of_mem _ hrest)
      · rw [OrderedMap.get?_insert] at hfound
        split at hfound
        · cases hfound
          exact .inl List.mem_cons_self
        · exact .inr hfound

theorem isSome_get?_foldl {paths : List Path} {found : OrderedMap Place Path} {path : Path}
    (hpath : path ∈ paths ∨ (found.get? path.orderKey).isSome = true) :
    ((paths.foldl (fun found path => found.insert path.orderKey path) found).get?
      path.orderKey).isSome = true := by
  induction paths generalizing found with
  | nil => exact hpath.resolve_left (List.not_mem_nil)
  | cons first rest ih =>
      refine ih ?_
      rw [OrderedMap.get?_insert]
      by_cases hkey : first.orderKey = path.orderKey
      · rw [if_pos hkey]
        exact .inr rfl
      · rw [if_neg hkey]
        refine hpath.imp_left fun hmem => ?_
        rcases List.mem_cons.mp hmem with rfl | hrest
        · exact absurd rfl hkey
        · exact hrest

theorem orderKey_injective {path other : Path} (hpath : path.isAbsolute = true)
    (hother : other.isAbsolute = true) (hkey : path.orderKey = other.orderKey) : path = other := by
  obtain ⟨anchor, parts⟩ := path
  obtain ⟨anchor', parts'⟩ := other
  cases anchor <;> cases anchor' <;> simp_all [orderKey, isAbsolute, anchorText]
  all_goals exact absurd hkey.1 (by decide)

theorem mem_of_mem_sorted {paths : List Path} {path : Path} (hpath : path ∈ sorted paths) :
    path ∈ paths := by
  obtain ⟨⟨key, found⟩, hentry, rfl⟩ := List.mem_map.mp hpath
  exact (mem_of_get?_foldl (OrderedMap.mem_entries_iff.mp hentry)).resolve_right nofun

theorem mem_sorted {paths : List Path} (habsolute : ∀ path ∈ paths, path.isAbsolute = true)
    {path : Path} : path ∈ sorted paths ↔ path ∈ paths := by
  refine ⟨mem_of_mem_sorted, fun hpath => ?_⟩
  have hsome : ((paths.foldl (fun found path => found.insert path.orderKey path)
      OrderedMap.empty).get? path.orderKey).isSome = true := isSome_get?_foldl (.inl hpath)
  obtain ⟨found, hfound⟩ := Option.isSome_iff_exists.mp hsome
  have hmem : found ∈ sorted paths :=
    List.mem_map.mpr ⟨(path.orderKey, found), OrderedMap.mem_entries_iff.mpr hfound, rfl⟩
  have hkey := areKeyed_foldl paths areKeyed_empty _ _ hfound
  have hsame := orderKey_injective (habsolute found (mem_of_mem_sorted hmem))
    (habsolute path hpath) hkey
  rwa [← hsame]

/-- Sorted paths stand in the strict order of their keys. -/
theorem pairwise_sorted (paths : List Path) :
    (sorted paths).Pairwise fun a b => a.orderKey < b.orderKey := by
  unfold sorted
  have hkeyed := areKeyed_foldl paths areKeyed_empty
  generalize paths.foldl (fun found path => found.insert path.orderKey path)
    (OrderedMap.empty : OrderedMap Place Path) = found at hkeyed
  refine List.pairwise_map.mpr (found.ordered.imp_of_mem fun {a b} ha hb hless => ?_)
  rwa [hkeyed a.1 a.2 (OrderedMap.mem_entries_iff.mp ha),
    hkeyed b.1 b.2 (OrderedMap.mem_entries_iff.mp hb)]

theorem nodup_sorted (paths : List Path) : (sorted paths).Nodup := by
  exact (pairwise_sorted paths).imp fun hless heq =>
    StrictOrder.ne_of_lt hless (congrArg orderKey heq)

end Path

end ResourcePruner
