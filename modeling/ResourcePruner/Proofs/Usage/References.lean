import ResourcePruner.Proofs.Usage.Scan

/-!
# References on a line

A line is asked for the anchors of a category first, and only then for the category's resources.
That loses no reference (`Reference.exists_anchor_of_refers`): a line is credited with the known
resources that it references, no more and no less (`Usage.mem_credited_iff`).
-/

namespace ResourcePruner

/-! ## Anchors -/

theorem Text.occursIn_iff {sought text : Text} : occursIn sought text = true ↔
    sought <:+: text := by
  rw [occursIn, Option.isSome_iff_ne_none, Ne, indexOf?, firstSuffix?_eq_none_iff,
    List.infix_iff_prefix_suffix]
  constructor
  · intro h
    obtain ⟨n, hn⟩ := Classical.not_forall.mp h
    obtain ⟨-, hfound⟩ := Classical.not_imp.mp hn
    exact ⟨text.drop n, List.isPrefixOf_iff_prefix.mp (by simpa using hfound),
      List.drop_suffix n text⟩
  · rintro ⟨rest, hbegins, hends⟩ hnone
    rw [List.suffix_iff_eq_drop.mp hends, ← List.isPrefixOf_iff_prefix,
      hnone _ (Nat.sub_le _ _)] at hbegins
    cases hbegins

namespace Reference

theorem infix_of_containsToken {line token : Text} (hfound : containsToken line token = true) :
    token <:+: line := by
  obtain ⟨position, hposition⟩ := Option.isSome_iff_exists.mp hfound
  have hne : token ≠ [] := by
    rintro rfl
    cases hposition
  obtain ⟨-, hstarts, -⟩ := (findToken?_eq_some_iff hne).mp hposition
  exact (List.isPrefixOf_iff_prefix.mp (Bool.and_eq_true_iff.mp hstarts).1).isInfix.trans
    (List.drop_suffix position line).isInfix

/-- Every token holds an anchor of its category. -/
theorem exists_anchor_of_mem_tokens {r : Resource} {dialect : Dialect} {token : Text}
    (htoken : token ∈ tokens r dialect) : ∃ anchor ∈ anchors r.category dialect,
    anchor <:+: token := by
  cases dialect with
  | markup =>
      have hplain : ∀ anchor ∈ [Text.ofString "@" ++ r.category.referenceType ++ "/", markupIdStem],
          anchor ∈ anchors r.category .markup := by
        intro anchor hanchor
        simp only [anchors]
        split
        · exact List.mem_append_left _ hanchor
        · exact hanchor
      rcases List.mem_cons.mp htoken with rfl | htoken
      · exact ⟨_, hplain _ List.mem_cons_self, (List.prefix_append _ _).isInfix⟩
      · rw [List.mem_singleton.mp htoken]
        exact ⟨_, hplain _ (by simp), (List.prefix_append _ _).isInfix⟩
  | code =>
      have hplain : ∀ token ∈ [Text.ofString "R." ++ r.category.referenceType ++ "."
            ++ codeName r.name, codeIdStem ++ codeName r.name],
          ∃ anchor ∈ [Text.ofString "R." ++ r.category.referenceType ++ ".", codeIdStem],
            anchor <:+: token := by
        intro token htoken
        rcases List.mem_cons.mp htoken with rfl | htoken
        · exact ⟨_, List.mem_cons_self, (List.prefix_append _ _).isInfix⟩
        · rw [List.mem_singleton.mp htoken]
          exact ⟨_, by simp, (List.prefix_append _ _).isInfix⟩
      simp only [tokens] at htoken
      simp only [anchors]
      split
      · rename_i hlayout
        rw [if_pos hlayout] at htoken
        rcases List.mem_append.mp htoken with htoken | htoken
        · obtain ⟨anchor, hanchor, hwithin⟩ := hplain token htoken
          exact ⟨anchor, List.mem_append_left _ hanchor, hwithin⟩
        · rw [List.mem_singleton.mp htoken]
          exact ⟨bindingSuffix, by simp, (List.suffix_append _ _).isInfix⟩
      · rename_i hlayout
        rw [if_neg hlayout] at htoken
        exact hplain token htoken

/-- A line on which a style is inherited from holds a quote. -/
theorem quote_infix_of_inheritsFrom {line name : Text} (hinherits : inheritsFrom line name = true) :
    Text.ofString "\"" <:+: line := by
  have hquote : ∀ {front back : Text}, front ++ Text.ofString "\"" ++ back <:+: line →
      Text.ofString "\"" <:+: line := fun h => (List.infix_append _ _ _).trans h
  rcases Bool.or_eq_true_iff.mp hinherits with h | h
  · rcases Bool.or_eq_true_iff.mp h with h | h
    · have h := Text.occursIn_iff.mp h
      rw [show Text.ofString "parent=\"@style/" = Text.ofString "parent=" ++ Text.ofString "\""
        ++ Text.ofString "@style/" from rfl, List.append_assoc, List.append_assoc] at h
      exact hquote h
    · have h := Text.occursIn_iff.mp h
      rw [show Text.ofString "parent=\"" = Text.ofString "parent=" ++ Text.ofString "\"" from rfl,
        List.append_assoc] at h
      exact hquote h
  · have h := Text.occursIn_iff.mp h
    rw [List.append_assoc] at h
    exact (List.prefix_append _ _).isInfix.trans h

/-- A line that references a resource holds an anchor of its category. -/
theorem exists_anchor_of_refers {dialect : Dialect} {line : Text} {r : Resource}
    (hrefers : refers dialect line r = true) :
    ∃ anchor ∈ anchors r.category dialect, Text.occursIn anchor line = true := by
  rcases Bool.or_eq_true_iff.mp (Bool.and_eq_true_iff.mp hrefers).2 with h | h
  · obtain ⟨token, htoken, hfound⟩ := List.any_eq_true.mp h
    obtain ⟨anchor, hanchor, hwithin⟩ := exists_anchor_of_mem_tokens htoken
    exact ⟨anchor, hanchor, Text.occursIn_iff.mpr (hwithin.trans (infix_of_containsToken hfound))⟩
  · obtain ⟨hstyle, hinherits⟩ := Bool.and_eq_true_iff.mp h
    obtain ⟨hmarkup, hstyle⟩ := Bool.and_eq_true_iff.mp hstyle
    obtain rfl := of_decide_eq_true hmarkup
    refine ⟨Text.ofString "\"", ?_, Text.occursIn_iff.mpr (quote_infix_of_inheritsFrom hinherits)⟩
    rw [of_decide_eq_true hstyle]
    simp [anchors]

end Reference

/-! ## What a line is credited with -/

/-- Some line was found to reference the resource. -/
def Catalog.IsUsed (catalog : Catalog) (r : Resource) : Prop :=
  ∃ record, catalog.get? r = some record ∧ record.isUsed = true

namespace Usage

theorem mem_tokenTable {catalog : Catalog} {dialect : Dialect} {group : TokenGroup} :
    group ∈ tokenTable catalog dialect ↔ ∃ category, catalog.ofCategory category ≠ []
      ∧ group = ⟨category, Reference.anchors category dialect, (catalog.ofCategory category).map
        fun entry => (entry.1, Reference.tokens entry.1 dialect)⟩ := by
  rw [tokenTable, List.mem_filterMap]
  refine exists_congr fun category => ?_
  cases catalog.ofCategory category with
  | nil => simp
  | cons entry rest => simp [Category.mem_all, eq_comm]

theorem mem_credited_group {catalog : Catalog} {category : Category} {dialect : Dialect}
    {line : Text}
    {r : Resource} :
    r ∈ TokenGroup.credited ⟨category, Reference.anchors category dialect,
        (catalog.ofCategory category).map fun entry => (entry.1, Reference.tokens entry.1 dialect)⟩
        dialect line ↔
      (Reference.anchors category dialect).any (Text.occursIn · line) = true
        ∧ catalog.contains r = true ∧ r.category = category
        ∧ (Reference.containsAnyToken line (Reference.tokens r dialect)
          || Reference.refersByInheritance dialect line r) = true := by
  rw [TokenGroup.credited]
  simp only
  split
  · rename_i hanchor
    simp only [hanchor, true_and, List.mem_map, List.mem_filter, Catalog.ofCategory,
      Catalog.entries, Prod.exists, Catalog.contains, Catalog.get?, Option.isSome_iff_exists,
      ← OrderedMap.mem_entries_iff, decide_eq_true_eq]
    constructor
    · rintro ⟨_, _, ⟨⟨_, record, ⟨hentry, hcategory⟩, heq⟩, hrefers⟩, rfl⟩
      cases heq
      exact ⟨⟨record, hentry⟩, hcategory, hrefers⟩
    · rintro ⟨⟨record, hentry⟩, hcategory, hrefers⟩
      exact ⟨r, _, ⟨⟨r, record, ⟨hentry, hcategory⟩, rfl⟩, hrefers⟩, rfl⟩
  · rename_i hanchor
    exact iff_of_false List.not_mem_nil fun h => hanchor h.1

/-- A line is credited with the known resources that it references. -/
theorem mem_credited_iff {catalog : Catalog} {dialect : Dialect} {line : Text} {r : Resource} :
    r ∈ credited dialect (tokenTable catalog dialect) line ↔
      catalog.contains r = true ∧ Reference.refers dialect line r = true := by
  rw [credited, Reference.refers]
  by_cases hcomment : (decide (dialect = .code) && Reference.isLineComment line) = true
  · simp [hcomment]
  · rw [if_neg hcomment, Bool.eq_false_iff.mpr hcomment, Bool.not_false, Bool.true_and]
    simp only [List.mem_flatMap, mem_tokenTable]
    constructor
    · rintro ⟨_, ⟨category, -, rfl⟩, hr⟩
      obtain ⟨-, hknown, -, hrefers⟩ := mem_credited_group.mp hr
      exact ⟨hknown, hrefers⟩
    · rintro ⟨hknown, hrefers⟩
      obtain ⟨record, hrecord⟩ := Option.isSome_iff_exists.mp hknown
      have hentry : (r, record) ∈ catalog.ofCategory r.category :=
        List.mem_filter.mpr ⟨OrderedMap.mem_entries_iff.mpr hrecord, by simp⟩
      refine ⟨_, ⟨r.category, List.ne_nil_of_mem hentry, rfl⟩,
        mem_credited_group.mpr ⟨List.any_eq_true.mpr ?_, hknown, rfl, hrefers⟩⟩
      refine Reference.exists_anchor_of_refers ?_
      rw [Reference.refers, Bool.eq_false_iff.mpr hcomment, Bool.not_false, Bool.true_and]
      exact hrefers

end Usage

end ResourcePruner
