import Mathlib.Data.List.Sort
import ResourcePruner.Proofs.Usage.References

/-!
# What a line of text adds to the counts

`Reference.Mentions` says without any search when a line references a resource. A line is credited
with the known resources that it mentions, in table order (`Usage.credited_eq`): asking for the
anchors first loses nothing, and no resource is credited twice. So a text raises the count of each
resource by the number of its lines that mention it, whatever else the catalog knows
(`Usage.counts_mentions`).
-/

namespace ResourcePruner

namespace Reference

/-! ## Tokens, comments and parents without a search -/

/-- A token stands on a line: it occurs there, and the name could not go on after it. -/
def StandsOn (token line : Text) : Prop :=
  token ≠ [] ∧ ∃ front back, line = front ++ token ++ back ∧ endsIdentifier back = true

theorem startsWithToken_iff {token rest : Text} : startsWithToken token rest = true ↔
    ∃ back, rest = token ++ back ∧ endsIdentifier back = true := by
  rw [startsWithToken, Bool.and_eq_true, List.isPrefixOf_iff_prefix]
  constructor
  · rintro ⟨⟨back, rfl⟩, hends⟩
    exact ⟨back, rfl, by simpa using hends⟩
  · rintro ⟨back, rfl, hends⟩
    exact ⟨List.prefix_append token back, by simpa using hends⟩

theorem containsToken_iff {line token : Text} :
    containsToken line token = true ↔ StandsOn token line := by
  rw [containsToken, Option.isSome_iff_ne_none]
  constructor
  · intro hfound
    have hne : token ≠ [] := by
      rintro rfl
      exact hfound rfl
    rw [Ne, findToken?_eq_none_iff hne] at hfound
    obtain ⟨position, hposition⟩ := Classical.not_forall.mp hfound
    obtain ⟨-, hstarts⟩ := Classical.not_imp.mp hposition
    obtain ⟨back, hback, hends⟩ := startsWithToken_iff.mp (Bool.of_not_eq_false hstarts)
    refine ⟨hne, line.take position, back, ?_, hends⟩
    rw [List.append_assoc, ← hback, List.take_append_drop]
  · rintro ⟨hne, front, back, rfl, hends⟩ hnone
    have hnowhere := (findToken?_eq_none_iff hne).mp hnone front.length (by simp [startPosition])
    rw [List.append_assoc, List.drop_left] at hnowhere
    rw [startsWithToken_iff.mpr ⟨back, rfl, hends⟩] at hnowhere
    cases hnowhere

theorem containsAnyToken_iff {line : Text} {tokens : List Text} :
    containsAnyToken line tokens = true ↔ ∃ token ∈ tokens, StandsOn token line := by
  simp [containsAnyToken, containsToken_iff]

/-- Nothing but blanks stands before the two slashes of a comment. -/
def IsComment (line : Text) : Prop :=
  ∃ blanks rest, line = blanks ++ Text.ofString "//" ++ rest ∧ ∀ s ∈ blanks, Text.isBlank s = true

theorem isLineComment_iff {line : Text} : isLineComment line = true ↔ IsComment line := by
  rw [isLineComment, List.isPrefixOf_iff_prefix]
  constructor
  · rintro ⟨rest, hrest⟩
    refine ⟨line.takeWhile Text.isBlank, rest, ?_, fun s => ?_⟩
    · rw [List.append_assoc, hrest, Text.trimStart, List.takeWhile_append_dropWhile]
    · intro hs
      exact List.all_eq_true.mp (List.all_takeWhile ..) s hs
  · rintro ⟨blanks, rest, rfl, hblanks⟩
    refine ⟨rest, ?_⟩
    rw [Text.trimStart, List.append_assoc, List.dropWhile_append_of_pos hblanks]
    rfl

/-- A style's name is written where the style that another one inherits from is written: as an
explicit parent, with or without its type, or as the first part of a longer quoted name. -/
def InheritsFrom (line name : Text) : Prop :=
  ("parent=\"@style/" ++ name ++ "\"" : Text) <:+: line
    ∨ ("parent=\"" ++ name ++ "\"" : Text) <:+: line
    ∨ ("\"" ++ name ++ "." : Text) <:+: line

theorem inheritsFrom_iff {line name : Text} :
    inheritsFrom line name = true ↔ InheritsFrom line name := by
  simp only [inheritsFrom, Bool.or_eq_true, Text.occursIn_iff, InheritsFrom, or_assoc]

/-- A line mentions a resource: it is no comment of code, and one of the resource's tokens stands on
it or, in markup, a style inherits from the resource there. -/
def Mentions (dialect : Dialect) (line : Text) (r : Resource) : Prop :=
  ¬ (dialect = .code ∧ IsComment line)
    ∧ ((∃ token ∈ tokens r dialect, StandsOn token line)
      ∨ dialect = .markup ∧ r.category = .style ∧ InheritsFrom line r.name)

theorem refers_iff {dialect : Dialect} {line : Text} {r : Resource} :
    refers dialect line r = true ↔ Mentions dialect line r := by
  simp only [refers, refersByInheritance, Mentions, Bool.and_eq_true, Bool.or_eq_true,
    Bool.not_eq_true', Bool.and_eq_false_iff, decide_eq_true_eq, decide_eq_false_iff_not,
    containsAnyToken_iff, inheritsFrom_iff, and_assoc, not_and_or, ← isLineComment_iff,
    Bool.not_eq_true]

instance (dialect : Dialect) (line : Text) (r : Resource) : Decidable (Mentions dialect line r) :=
  decidable_of_iff _ refers_iff

end Reference

namespace Usage

/-! ## The credited resources in order -/

theorem pairwise_keys (catalog : Catalog) : (catalog.entries.map Prod.fst).Pairwise (· < ·) :=
  List.pairwise_map.mpr catalog.records.ordered

theorem pairwise_tokenTable (catalog : Catalog) (dialect : Dialect) :
    (tokenTable catalog dialect).Pairwise fun a b => a.category.rank < b.category.rank := by
  have hranks : Category.all.Pairwise fun a b => a.rank < b.rank := by decide
  refine List.Pairwise.filterMap _ ?_ hranks
  intro a b hrank group hgroup other hother
  split at hgroup
  · cases hgroup
  · split at hother
    · cases hother
    · cases hgroup
      cases hother
      exact hrank

theorem category_of_mem_credited {catalog : Catalog} {dialect : Dialect} {line : Text}
    {group : TokenGroup} (hgroup : group ∈ tokenTable catalog dialect) {r : Resource}
    (hr : r ∈ group.credited dialect line) : r.category = group.category := by
  obtain ⟨category, -, rfl⟩ := mem_tokenTable.mp hgroup
  exact (mem_credited_group.mp hr).2.2.1

theorem pairwise_credited_group {catalog : Catalog} {dialect : Dialect} {group : TokenGroup}
    (hgroup : group ∈ tokenTable catalog dialect) (line : Text) :
    (group.credited dialect line).Pairwise (· < ·) := by
  obtain ⟨category, -, rfl⟩ := mem_tokenTable.mp hgroup
  unfold TokenGroup.credited
  split
  · refine (pairwise_keys catalog).sublist ((List.filter_sublist.map Prod.fst).trans ?_)
    rw [List.map_map]
    exact List.filter_sublist.map Prod.fst
  · exact .nil

/-- What a line is credited with comes in table order. -/
theorem pairwise_credited (catalog : Catalog) (dialect : Dialect) (line : Text) :
    (credited dialect (tokenTable catalog dialect) line).Pairwise (· < ·) := by
  unfold credited
  split
  · exact .nil
  refine List.pairwise_flatMap.mpr ⟨fun group hgroup => pairwise_credited_group hgroup line, ?_⟩
  refine (pairwise_tokenTable catalog dialect).imp_of_mem ?_
  intro a b ha hb hrank r hr other hother
  refine .inl ?_
  rwa [category_of_mem_credited ha hr, category_of_mem_credited hb hother]

/-- A line is credited with the known resources that it mentions, each once. -/
theorem credited_eq (catalog : Catalog) (dialect : Dialect) (line : Text) :
    credited dialect (tokenTable catalog dialect) line
      = (catalog.entries.map Prod.fst).filter (Reference.Mentions dialect line ·) := by
  refine (pairwise_credited catalog dialect line).eq_of_mem_iff
    ((pairwise_keys catalog).filter _) ?_
  intro r
  rw [mem_credited_iff, List.mem_filter, decide_eq_true_iff, Reference.refers_iff]
  refine and_congr_left' ?_
  simp [Catalog.contains, Catalog.get?, Catalog.entries, Option.isSome_iff_exists,
    ← OrderedMap.mem_entries_iff]

/-! ## Counts -/

theorem get?_foldl_markUsed (resources : List Resource) (catalog : Catalog) (r : Resource) :
    (resources.foldl Catalog.markUsed catalog).get? r = (catalog.get? r).map fun record =>
      { record with uses := record.uses + resources.count r } := by
  induction resources generalizing catalog with
  | nil => simp
  | cons other rest ih =>
      rw [List.foldl_cons, ih, Catalog.get?_markUsed]
      split
      · rename_i hr
        subst hr
        rw [Option.map_map, List.count_cons_self]
        refine Option.map_congr fun record _ => ?_
        simp only [Function.comp, Record.mark, Nat.add_assoc, Nat.add_comm 1]
      · rename_i hr
        rw [List.count_cons_of_ne (Ne.symm hr)]

theorem count_credited (catalog : Catalog) (dialect : Dialect) (line : Text) {r : Resource}
    (hknown : catalog.contains r = true) :
    (credited dialect (tokenTable catalog dialect) line).count r
      = if Reference.Mentions dialect line r then 1 else 0 := by
  have hnodup : (credited dialect (tokenTable catalog dialect) line).Nodup :=
    (pairwise_credited catalog dialect line).imp StrictOrder.ne_of_lt
  simp only [hnodup.count, mem_credited_iff, hknown, true_and, Reference.refers_iff]

theorem get?_addLines (catalog : Catalog) (dialect : Dialect) (lines : List Text) (tally : Tally)
    (hsame : catalog.SameFiles tally.catalog) (r : Resource) :
    (Tally.addLines tally dialect (tokenTable catalog dialect) lines).catalog.get? r
      = (tally.catalog.get? r).map fun record =>
        { record with uses := record.uses + lines.countP (Reference.Mentions dialect · r) } := by
  induction lines generalizing tally with
  | nil => simp [Tally.addLines]
  | cons line rest ih =>
      have hstep : Tally.addLines tally dialect (tokenTable catalog dialect) (line :: rest)
          = Tally.addLines (tally.add (credited dialect (tokenTable catalog dialect) line)) dialect
            (tokenTable catalog dialect) rest := rfl
      rw [hstep, ih _ (hsame.trans (.foldl_markUsed _ _)), Tally.add, get?_foldl_markUsed,
        Option.map_map]
      refine Option.map_congr ?_
      intro record hrecord
      have hknown : catalog.contains r = true := by
        rw [← hsame.contains_eq, Catalog.contains, hrecord]
        rfl
      simp only [Function.comp, count_credited catalog dialect line hknown, List.countP_cons,
        decide_eq_true_eq, Nat.add_assoc, Nat.add_comm]

/-- With the tokens of a catalog, a line raises by one the counts of exactly those known resources
that it mentions and tells how many they are. A text raises each count by the number of its lines
that mention the resource: what else is known does not enter into the new record. -/
theorem counts_mentions (catalog : Catalog) (dialect : Dialect) :
    (∀ line r,
      (Tally.addLines ⟨catalog, 0⟩ dialect (tokenTable catalog dialect) [line]).catalog.get? r
        = (catalog.get? r).map fun record =>
          if Reference.Mentions dialect line r then record.mark else record)
    ∧ (∀ line,
      (Tally.addLines ⟨catalog, 0⟩ dialect (tokenTable catalog dialect) [line]).references
        = catalog.entries.countP fun entry => Reference.Mentions dialect line entry.1)
    ∧ ∀ text r,
      (countText catalog dialect text).catalog.get? r = (catalog.get? r).map fun record =>
        { record with
          uses := record.uses + (Text.lines text).countP (Reference.Mentions dialect · r) } := by
  refine ⟨?_, ?_, ?_⟩
  · intro line r
    rw [get?_addLines catalog dialect [line] _ (.refl _)]
    refine Option.map_congr ?_
    intro record _
    by_cases hmentions : Reference.Mentions dialect line r
    · simp [hmentions, Record.mark]
    · simp [hmentions]
  · intro line
    change 0 + (credited dialect (tokenTable catalog dialect) line).length = _
    rw [credited_eq, Nat.zero_add, ← List.countP_eq_length_filter, List.countP_map]
    rfl
  · intro text r
    exact get?_addLines catalog dialect (Text.lines text) _ (.refl _) r

end Usage

end ResourcePruner
