import ResourcePruner.Declaration
import ResourcePruner.Text.Lines

/-!
# What the search for declarations finds

Every declaration found on a line stands there: its tag, its name and the quote after it begin the
line at its position (`Declaration.isOn_of_mem_onLine`). And since a declaration ends at a quote,
text without quotes behind a line changes nothing (`Declaration.onLine_append`); in particular it
makes no difference whether a line is searched with its terminator or without.
-/

namespace ResourcePruner

/-- Text behind a text in which the last symbol sought does not occur makes no difference to whether
the text begins with what is sought. -/
theorem Text.isPrefixOf_append {last : Symbol} {ending : Text} (hending : last ∉ ending)
    (stem text : Text) :
    (stem ++ [last]).isPrefixOf (text ++ ending) = (stem ++ [last]).isPrefixOf text := by
  rw [Bool.eq_iff_iff, List.isPrefixOf_iff_prefix, List.isPrefixOf_iff_prefix]
  refine ⟨fun h => ?_, fun h => h.trans (List.prefix_append text ending)⟩
  rcases List.prefix_or_prefix_of_prefix h (List.prefix_append text ending) with htext | hbeyond
  · exact htext
  · obtain ⟨more, hmore⟩ := hbeyond
    rw [← hmore] at h ⊢
    have hmore' : more <+: ending := (List.prefix_append_right_inj text).mp h
    rcases List.eq_nil_or_concat more with rfl | ⟨init, other, rfl⟩
    · simp
    · rw [List.concat_eq_append, ← List.append_assoc] at hmore
      have hlast : other = last := List.singleton_inj.mp (List.append_inj_right' hmore rfl)
      exact absurd (hmore'.subset (by simp [hlast])) hending

namespace Declaration

/-! ## Membership -/

theorem mem_insertByPosition {d e : Declaration} {found : List Declaration} :
    d ∈ insertByPosition e found ↔ d = e ∨ d ∈ found := by
  induction found with
  | nil => simp [insertByPosition]
  | cons other rest ih =>
      rw [insertByPosition]
      split
      · exact List.mem_cons
      · rw [List.mem_cons, ih, List.mem_cons]
        exact or_left_comm

theorem mem_ofCategories {d : Declaration} {categories : List Category} {line : Text} :
    d ∈ ofCategories categories line ↔ ∃ category ∈ categories, d ∈ ofCategory category line := by
  have hsorted : ∀ found : List Declaration, d ∈ found.foldr insertByPosition [] ↔ d ∈ found := by
    intro found
    induction found with
    | nil => rfl
    | cons e rest ih => rw [List.foldr_cons, mem_insertByPosition, ih, List.mem_cons]
  rw [ofCategories, hsorted, List.mem_flatMap]

theorem mem_onLine {d : Declaration} {line : Text} :
    d ∈ onLine line ↔ ∃ category ∈ Category.inlineCategories, d ∈ ofCategory category line :=
  mem_ofCategories

/-! ## Declarations stand where they are found -/

/-- The declaration's tag, its name and the quote that ends the name begin the line at its
position. -/
def IsOn (d : Declaration) (line : Text) : Prop :=
  d.resource.category.openingTag ++ d.resource.name ++ [.char '"'] <+: line.drop d.position

/-- A text that a quote follows is cut off by `takeWhile` right before the quote. -/
theorem takeWhile_append_quote_isPrefix {value : Text}
    (hquote : (value.takeWhile (· ≠ .char '"')).length ≠ value.length) :
    value.takeWhile (· ≠ .char '"') ++ [.char '"'] <+: value := by
  induction value with
  | nil => exact absurd rfl hquote
  | cons s rest ih =>
      by_cases hs : s = .char '"'
      · subst hs
        simp
      · simp only [List.takeWhile_cons, ne_eq, hs, not_false_eq_true, decide_true, if_true,
          List.length_cons, Nat.add_right_cancel_iff] at hquote ⊢
        exact List.cons_prefix_cons.mpr ⟨rfl, ih hquote⟩

/-- A tag whose name is ended on the line stands there with its name. -/
theorem isOn_of_eq_append {category : Category} {line value : Text} {position : Nat}
    (hvalue : line.drop position = category.openingTag ++ value)
    (hended : (value.takeWhile (· ≠ .char '"')).length ≠ value.length) :
    IsOn ⟨⟨category, value.takeWhile (· ≠ .char '"')⟩, position⟩ line := by
  rw [IsOn, hvalue, List.append_assoc]
  exact (List.prefix_append_right_inj _).mpr (takeWhile_append_quote_isPrefix hended)

theorem eq_append_of_isPrefixOf {tag text : Text} (htag : tag.isPrefixOf text = true) :
    text = tag ++ text.drop tag.length :=
  (List.prefix_iff_eq_append.mp (List.isPrefixOf_iff_prefix.mp htag)).symm

theorem drop_succ_of_eq_cons {line rest : Text} {position : Nat} {s : Symbol}
    (h : line.drop position = s :: rest) : line.drop (position + 1) = rest := by
  rw [← List.drop_drop, h, List.drop_succ_cons, List.drop_zero]

theorem isOn_ofCategoryFrom {category : Category} {line : Text} (skipped position : Nat)
    (text : Text) (htext : line.drop position = text) :
    ∀ d ∈ ofCategoryFrom category skipped position text,
      d.resource.category = category ∧ d.IsOn line := by
  fun_induction ofCategoryFrom category skipped position text with
  | case1 => intro d hd; cases hd
  | case2 skipped position s rest ih => exact ih (drop_succ_of_eq_cons htext)
  | case3 position s rest tag htag value name hunended => intro d hd; cases hd
  | case4 position s rest tag htag value name hended others hempty ih =>
      exact ih (drop_succ_of_eq_cons htext)
  | case5 position s rest tag htag value name hended others hname ih =>
      intro d hd
      rcases List.mem_cons.mp hd with rfl | hd
      · exact ⟨rfl, isOn_of_eq_append (htext.trans (eq_append_of_isPrefixOf htag)) hended⟩
      · exact ih (drop_succ_of_eq_cons htext) d hd
  | case6 position s rest tag htag ih => exact ih (drop_succ_of_eq_cons htext)

theorem isOn_of_mem_onLine {d : Declaration} {line : Text} (hd : d ∈ onLine line) :
    d.resource.category ∈ Category.inlineCategories ∧ d.IsOn line := by
  obtain ⟨category, hcategory, hmem⟩ := mem_onLine.mp hd
  obtain ⟨rfl, hon⟩ := isOn_ofCategoryFrom 0 0 line rfl d hmem
  exact ⟨hcategory, hon⟩

theorem IsOn.valueEnd_lt {d : Declaration} {line : Text} (hon : d.IsOn line) :
    d.position < d.valueEnd ∧ d.valueEnd < line.length := by
  have hlength := hon.length_le
  have htag : 0 < d.resource.category.openingTag.length := by
    cases d.resource.category <;> decide
  simp only [List.length_append, List.length_singleton, List.length_drop] at hlength
  rw [valueEnd]
  omega

/-! ## Text without quotes behind a line -/

/-- Every opening tag ends with a quote. -/
theorem openingTag_eq (category : Category) :
    ∃ stem : Text, category.openingTag = stem ++ [.char '"'] := by
  refine ⟨"<" ++ category.key ++ " name=", ?_⟩
  rw [Category.openingTag, List.append_assoc ("<" ++ category.key : Text)]
  rfl

/-- An opening tag begins a text, or that text with text without quotes behind it, alike. -/
theorem openingTag_isPrefixOf_append (category : Category) {text ending : Text}
    (hending : Symbol.char '"' ∉ ending) :
    category.openingTag.isPrefixOf (text ++ ending) = category.openingTag.isPrefixOf text := by
  obtain ⟨stem, hstem⟩ := openingTag_eq category
  rw [hstem, Text.isPrefixOf_append hending]

theorem ofCategoryFrom_eq_nil {category : Category} {ending : Text}
    (hending : Symbol.char '"' ∉ ending) (skipped position : Nat) :
    ofCategoryFrom category skipped position ending = [] := by
  obtain ⟨stem, hstem⟩ := openingTag_eq category
  fun_induction ofCategoryFrom category skipped position ending with
  | case1 => rfl
  | case2 skipped position s rest ih => exact ih fun h => hending (List.mem_cons_of_mem _ h)
  | case3 => rfl
  | case4 position s rest tag htag value name hended others hempty ih =>
      exact ih fun h => hending (List.mem_cons_of_mem _ h)
  | case5 position s rest tag htag value name hended others hname ih =>
      refine absurd ((List.isPrefixOf_iff_prefix.mp htag).subset ?_) hending
      simp [tag, hstem]
  | case6 position s rest tag htag ih => exact ih fun h => hending (List.mem_cons_of_mem _ h)

theorem takeWhile_append_of_not_mem {value ending : Text} (hending : Symbol.char '"' ∉ ending) :
    ((value ++ ending).takeWhile (· ≠ .char '"')).length = (value ++ ending).length ↔
      (value.takeWhile (· ≠ .char '"')).length = value.length := by
  have hquotes : ∀ s ∈ ending, decide (s ≠ .char '"') = true := fun s hs =>
    decide_eq_true (by rintro rfl; exact hending hs)
  have hall : ending.takeWhile (· ≠ .char '"') = ending := by
    rw [← List.append_nil ending, List.takeWhile_append_of_pos (by simpa using hquotes)]
    simp
  rw [List.takeWhile_append]
  split
  · rename_i h
    rw [hall]
    exact iff_of_true rfl h
  · rename_i h
    have hle := (List.takeWhile_prefix (l := value) (· ≠ .char '"')).length_le
    rw [List.length_append]
    omega

/-- The search in a text goes the same way when text without quotes follows. -/
theorem ofCategoryFrom_append {category : Category} {ending : Text}
    (hending : Symbol.char '"' ∉ ending) (skipped position : Nat) (text : Text) :
    ofCategoryFrom category skipped position (text ++ ending)
      = ofCategoryFrom category skipped position text := by
  induction text generalizing skipped position with
  | nil =>
      rw [List.nil_append, ofCategoryFrom_eq_nil hending]
      cases skipped <;> rfl
  | cons s rest ih =>
      cases skipped with
      | succ skipped => exact ih skipped (position + 1)
      | zero =>
          have hbegins : category.openingTag.isPrefixOf (s :: (rest ++ ending))
              = category.openingTag.isPrefixOf (s :: rest) := by
            rw [← List.cons_append]
            exact openingTag_isPrefixOf_append category hending
          rw [List.cons_append, ofCategoryFrom, ofCategoryFrom, hbegins]
          split
          · rename_i htag
            have hlong : category.openingTag.length ≤ (s :: rest).length :=
              (List.isPrefixOf_iff_prefix.mp htag).length_le
            have hdrop : (s :: (rest ++ ending)).drop category.openingTag.length
                = (s :: rest).drop category.openingTag.length ++ ending := by
              rw [← List.cons_append, List.drop_append_of_le_length hlong]
            simp only [hdrop, takeWhile_append_of_not_mem hending]
            split
            · rfl
            · rename_i hended
              rw [List.takeWhile_append, if_neg hended, ih]
          · exact ih 0 (position + 1)

theorem onLine_append {line ending : Text} (hending : Symbol.char '"' ∉ ending) :
    onLine (line ++ ending) = onLine line := by
  unfold onLine ofCategories
  congr 1
  exact congrArg (List.flatMap · _) (funext fun category =>
    ofCategoryFrom_append hending 0 0 line)

theorem resourcesOn_append {line ending : Text} (hending : Symbol.char '"' ∉ ending) :
    resourcesOn (line ++ ending) = resourcesOn line := by
  rw [resourcesOn, resourcesOn, onLine_append hending]

end Declaration

end ResourcePruner
