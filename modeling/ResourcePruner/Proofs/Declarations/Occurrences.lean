import Mathlib.Data.List.Pairwise
import Mathlib.Data.List.Sort
import Mathlib.Data.List.TakeWhile
import ResourcePruner.Proofs.Declarations

/-!
# Every declaration on a line

`Declaration.IsWritten` says without any search that a declaration is written on a line. The search
finds declarations that are written there, in strictly increasing order of position, and it misses
one only if its tag begins in the name of another one of its category that is found
(`Declaration.findsWritten`).

Two things carry this. Where two declarations are written on a line, the later one begins either
behind the name of the earlier one or in it, since no tag holds another `<` or another quote
(`Declaration.lt_or_beginsInName`). And the search for one category passes over nothing but what it
has found, from the tag to the quote behind the name (`Declaration.exists_covering`).
-/

namespace ResourcePruner

/-! ## What an opening tag is made of -/

theorem Category.getElem?_openingTag_eq_tag_iff (category : Category) :
    ∀ i < category.openingTag.length,
      (category.openingTag[i]? = some (.char '<') ↔ i = 0) := by
  cases category <;> decide

theorem Category.getElem?_openingTag_eq_quote_iff (category : Category) :
    ∀ i < category.openingTag.length,
      (category.openingTag[i]? = some (.char '"') ↔ i + 1 = category.openingTag.length) := by
  cases category <;> decide

theorem Category.one_lt_length_openingTag (category : Category) :
    1 < category.openingTag.length := by
  cases category <;> decide

/-- No opening tag begins another one. -/
theorem Category.eq_of_openingTag_isPrefix {a b : Category}
    (hbegins : a.openingTag <+: b.openingTag) : a = b := by
  revert hbegins
  cases a <;> cases b <;> decide

namespace Declaration

variable {d e : Declaration} {line text : Text}

/-! ## Declarations that are written on a line -/

/-- A declaration is written on a line: its category is declared by tags, and the tag, a name
without quotes that is not empty and a quote stand at its position. -/
structure IsWritten (d : Declaration) (line : Text) : Prop where
  inline : d.resource.category.isInline = true
  isOn : d.IsOn line
  named : d.resource.name ≠ []
  unquoted : Symbol.char '"' ∉ d.resource.name

/-- The position behind the tag, where the name begins. -/
def valueStart (d : Declaration) : Nat :=
  d.position + d.resource.category.openingTag.length

/-- A declaration begins in the name of another one: its tag stands there, and the quote that ends
the tag is the one that ends the name. -/
def BeginsInName (d outer : Declaration) : Prop :=
  outer.valueStart ≤ d.position ∧ d.valueStart = outer.valueEnd + 1

theorem valueEnd_eq (d : Declaration) : d.valueEnd = d.valueStart + d.resource.name.length := rfl

theorem position_lt_valueStart (d : Declaration) : d.position + 1 < d.valueStart :=
  Nat.add_lt_add_left (Category.one_lt_length_openingTag _) d.position

theorem IsOn.getElem?_eq (hon : d.IsOn text) {n : Nat} (hfrom : d.position ≤ n)
    (hto : n ≤ d.valueEnd) :
    text[n]? = (d.resource.category.openingTag ++ d.resource.name ++ [.char '"'])[n
      - d.position]? := by
  obtain ⟨back, hback⟩ := hon
  have hlength : n - d.position
      < (d.resource.category.openingTag ++ d.resource.name ++ [Symbol.char '"']).length := by
    simp only [List.length_append, List.length_singleton]
    unfold valueEnd at hto
    omega
  rw [← Nat.add_sub_cancel' hfrom, ← List.getElem?_drop, ← hback, List.getElem?_append_left hlength,
    Nat.add_sub_cancel_left]

/-- Of a tag, only the first symbol is a `<`. -/
theorem IsOn.getElem?_eq_tag_iff (hon : d.IsOn text) {n : Nat} (hfrom : d.position ≤ n)
    (hto : n < d.valueStart) : text[n]? = some (.char '<') ↔ n = d.position := by
  have hinside : n - d.position < d.resource.category.openingTag.length := by
    unfold valueStart at hto
    omega
  rw [hon.getElem?_eq hfrom (by rw [valueEnd_eq]; omega), List.append_assoc,
    List.getElem?_append_left hinside, Category.getElem?_openingTag_eq_tag_iff _ _ hinside]
  omega

/-- From its tag to the end of its name, a declaration holds two quotes: one before the name and one
behind it. -/
theorem IsOn.getElem?_eq_quote_iff (hon : d.IsOn text)
    (hunquoted : Symbol.char '"' ∉ d.resource.name) {n : Nat} (hfrom : d.position ≤ n)
    (hto : n ≤ d.valueEnd) :
    text[n]? = some (.char '"') ↔ n + 1 = d.valueStart ∨ n = d.valueEnd := by
  have hvalue := d.valueEnd_eq
  have hstart : d.valueStart = d.position + d.resource.category.openingTag.length := rfl
  rw [hon.getElem?_eq hfrom hto, List.append_assoc]
  rcases Nat.lt_or_ge n d.valueStart with htag | hname
  · have hinside : n - d.position < d.resource.category.openingTag.length := by omega
    rw [List.getElem?_append_left hinside, Category.getElem?_openingTag_eq_quote_iff _ _ hinside]
    omega
  · rw [List.getElem?_append_right (by omega)]
    rcases Nat.lt_or_eq_of_le hto with hwithin | rfl
    · rw [List.getElem?_append_left (by omega)]
      refine iff_of_false (fun hquote => hunquoted (List.mem_of_getElem? hquote)) (by omega)
    · refine iff_of_true ?_ (.inr rfl)
      rw [List.getElem?_append_right (by omega)]
      have hlast : d.valueEnd - d.position - d.resource.category.openingTag.length
          - d.resource.name.length = 0 := by omega
      rw [hlast]
      rfl

/-- Where two declarations stand on a line, the later one begins behind the name of the earlier one
or in it. -/
theorem lt_or_beginsInName (hd : d.IsOn line) (hdquote : Symbol.char '"' ∉ d.resource.name)
    (he : e.IsOn line) (hequote : Symbol.char '"' ∉ e.resource.name)
    (hlt : d.position < e.position) :
    d.valueEnd < e.position ∨ e.BeginsInName d := by
  rcases Nat.lt_or_ge d.valueEnd e.position with hbehind | hwithin
  · exact .inl hbehind
  right
  have hestart := e.position_lt_valueStart
  have heend := e.valueEnd_eq
  have hopens := (he.getElem?_eq_tag_iff (Nat.le_refl _) (by omega)).mpr rfl
  have hname : d.valueStart ≤ e.position := by
    refine Nat.le_of_not_lt fun htag => ?_
    have := (hd.getElem?_eq_tag_iff (Nat.le_of_lt hlt) htag).mp hopens
    omega
  refine ⟨hname, ?_⟩
  -- the quote behind the name of `d` is the next quote from `e` on, and so is the one in its tag
  have hdends := (hd.getElem?_eq_quote_iff hdquote (by omega) (Nat.le_refl _)).mpr (.inr rfl)
  have heends := (he.getElem?_eq_quote_iff hequote (n := e.valueStart - 1) (by omega)
    (by omega)).mpr (.inl (by omega))
  rcases Nat.lt_or_ge d.valueEnd (e.valueStart - 1) with hbefore | hafter
  · have := (he.getElem?_eq_quote_iff hequote hwithin (by omega)).mp hdends
    omega
  · have := (hd.getElem?_eq_quote_iff hdquote (by omega) hafter).mp heends
    omega

/-- The name of a declaration can be read off the line. -/
theorem IsOn.name_eq (hon : d.IsOn line) (hunquoted : Symbol.char '"' ∉ d.resource.name) :
    d.resource.name = (line.drop d.valueStart).takeWhile (· ≠ .char '"') := by
  obtain ⟨back, hback⟩ := hon
  rw [valueStart, ← List.drop_drop, ← hback, List.append_assoc, List.append_assoc, List.drop_left,
    List.takeWhile_append_of_pos]
  · simp
  · exact fun s hs => decide_eq_true fun hquote => hunquoted (hquote ▸ hs)

theorem IsOn.openingTag_isPrefix (hon : d.IsOn line) :
    d.resource.category.openingTag <+: line.drop d.position :=
  (List.append_assoc .. ▸ List.prefix_append _ _ : _ <+: _).trans hon

/-- Only one declaration stands at a place. -/
theorem eq_of_position_eq (hd : d.IsOn line) (hdquote : Symbol.char '"' ∉ d.resource.name)
    (he : e.IsOn line) (hequote : Symbol.char '"' ∉ e.resource.name)
    (hsame : d.position = e.position) : d = e := by
  have hcategory : d.resource.category = e.resource.category := by
    have hetag := hsame ▸ he.openingTag_isPrefix
    rcases List.prefix_or_prefix_of_prefix hd.openingTag_isPrefix hetag with h | h
    · exact Category.eq_of_openingTag_isPrefix h
    · exact (Category.eq_of_openingTag_isPrefix h).symm
  have hstart : d.valueStart = e.valueStart := by rw [valueStart, valueStart, hsame, hcategory]
  have hname : d.resource.name = e.resource.name := by
    rw [hd.name_eq hdquote, he.name_eq hequote, hstart]
  obtain ⟨⟨category, name⟩, position⟩ := d
  obtain ⟨⟨category', name'⟩, position'⟩ := e
  cases hcategory
  cases hname
  cases hsame
  rfl

/-! ## The search for one category -/

/-- What is found of a category stands in order, each declaration behind the name of the one
before. -/
theorem ordered_ofCategoryFrom (category : Category) (skipped position : Nat) (text : Text) :
    (∀ d ∈ ofCategoryFrom category skipped position text,
        d.resource.category = category ∧ position + skipped ≤ d.position)
      ∧ (ofCategoryFrom category skipped position text).Pairwise fun d e =>
        d.valueEnd < e.position := by
  fun_induction ofCategoryFrom category skipped position text with
  | case1 => simp
  | case2 skipped position s rest ih =>
      exact ⟨fun d hd => ⟨(ih.1 d hd).1, by have := (ih.1 d hd).2; omega⟩, ih.2⟩
  | case3 => simp
  | case4 position s rest tag htag value name hended others hempty ih =>
      exact ⟨fun d hd => ⟨(ih.1 d hd).1, by have := (ih.1 d hd).2; omega⟩, ih.2⟩
  | case5 position s rest tag htag value name hended others hname ih =>
      refine ⟨fun d hd => ?_, List.pairwise_cons.mpr ⟨fun e he => ?_, ih.2⟩⟩
      · rcases List.mem_cons.mp hd with rfl | hd
        · exact ⟨rfl, Nat.le_refl _⟩
        · exact ⟨(ih.1 d hd).1, by have := (ih.1 d hd).2; omega⟩
      · have := (ih.1 e he).2
        change position + tag.length + name.length < e.position
        omega
  | case6 position s rest tag htag ih =>
      exact ⟨fun d hd => ⟨(ih.1 d hd).1, by have := (ih.1 d hd).2; omega⟩, ih.2⟩

theorem valueEnd_lt_of_position_lt {category : Category} (hd : d ∈ ofCategory category line)
    (he : e ∈ ofCategory category line) (hlt : d.position < e.position) :
    d.valueEnd < e.position := by
  have hsymm : Std.Symm fun d e : Declaration =>
      d.valueEnd < e.position ∨ e.valueEnd < d.position := ⟨fun _ _ => Or.symm⟩
  have hordered : (ofCategory category line).Pairwise fun d e =>
      d.valueEnd < e.position ∨ e.valueEnd < d.position :=
    (ordered_ofCategoryFrom category 0 0 line).2.imp .inl
  have hne : d ≠ e := fun heq => Nat.lt_irrefl _ (heq ▸ hlt)
  refine (hordered.forall hd he hne).resolve_right fun hbefore => ?_
  have := e.position_lt_valueStart
  have := e.valueEnd_eq
  omega

theorem quote_not_mem_takeWhile (value : Text) :
    Symbol.char '"' ∉ value.takeWhile (· ≠ .char '"') :=
  fun hquote => by simpa using List.mem_takeWhile_imp hquote

/-- What is found has a name without quotes that is not empty. -/
theorem named_ofCategoryFrom {category : Category} {skipped position : Nat} {text : Text} :
    ∀ d ∈ ofCategoryFrom category skipped position text,
      d.resource.name ≠ [] ∧ Symbol.char '"' ∉ d.resource.name := by
  fun_induction ofCategoryFrom category skipped position text with
  | case1 => simp
  | case2 skipped position s rest ih => exact ih
  | case3 => simp
  | case4 position s rest tag htag value name hended others hempty ih => exact ih
  | case5 position s rest tag htag value name hended others hname ih =>
      intro d hd
      rcases List.mem_cons.mp hd with rfl | hd
      · exact ⟨hname, quote_not_mem_takeWhile value⟩
      · exact ih d hd
  | case6 position s rest tag htag ih => exact ih

/-- The search for a category passes over nothing but the declarations that it finds: a declaration
of the category on the line does not begin outside of all of them. -/
theorem exists_covering {category : Category} (hwritten : d.IsWritten line)
    (hcategory : d.resource.category = category) (skipped position : Nat) (text : Text)
    (htext : line.drop position = text) (hfrom : position + skipped ≤ d.position) :
    ∃ e ∈ ofCategoryFrom category skipped position text,
      e.position ≤ d.position ∧ d.position ≤ e.valueEnd := by
  fun_induction ofCategoryFrom category skipped position text with
  | case1 =>
      have hlength := hwritten.isOn.valueEnd_lt
      have hend := List.drop_eq_nil_iff.mp htext
      omega
  | case2 skipped position s rest ih => exact ih (drop_succ_of_eq_cons htext) (by omega)
  | case3 position s rest tag htag value name hunended =>
      -- no quote stands behind the tag, but one does behind the name of `d`
      have hends := (hwritten.isOn.getElem?_eq_quote_iff hwritten.unquoted
        (Nat.le_of_lt hwritten.isOn.valueEnd_lt.1) (Nat.le_refl _)).mpr (.inr rfl)
      have hlate : position + tag.length ≤ d.valueEnd := by
        have htagLength : d.resource.category.openingTag.length = tag.length := by rw [hcategory]
        rw [valueEnd]
        omega
      have hvalue : line.drop (position + tag.length) = value := by rw [← List.drop_drop, htext]
      have hall : name = value := (List.takeWhile_prefix _).eq_of_length hunended
      have hquote : Symbol.char '"' ∈ name := by
        rw [hall]
        refine List.mem_of_getElem? (i := d.valueEnd - (position + tag.length)) ?_
        rwa [← hvalue, List.getElem?_drop, Nat.add_sub_cancel' hlate]
      exact absurd hquote (quote_not_mem_takeWhile value)
  | case4 position s rest tag htag value name hended others hempty ih =>
      -- the tag without a name stands like a declaration, so that `d` begins behind it
      have hunnamed := isOn_of_eq_append (htext.trans (eq_append_of_isPrefixOf htag)) hended
      have hunquoted := quote_not_mem_takeWhile value
      rcases Nat.lt_or_eq_of_le hfrom with hlt | heq
      · refine ih (drop_succ_of_eq_cons htext) ?_
        have hlength : name.length = 0 := List.length_eq_zero_iff.mpr hempty
        rcases lt_or_beginsInName hunnamed hunquoted hwritten.isOn hwritten.unquoted hlt with
          hbehind | ⟨hbegins, hends⟩
        · change position + tag.length + name.length < d.position at hbehind
          omega
        · have hlong := d.position_lt_valueStart
          change position + tag.length ≤ d.position at hbegins
          change d.valueStart = position + tag.length + name.length + 1 at hends
          omega
      · have hsame := eq_of_position_eq hunnamed hunquoted hwritten.isOn hwritten.unquoted heq
        exact absurd ((congrArg (·.resource.name) hsame).symm.trans hempty) hwritten.named
  | case5 position s rest tag htag value name hended others hname ih =>
      rcases Nat.lt_or_ge (position + tag.length + name.length) d.position with hbehind | hcovered
      · obtain ⟨e, he, hcovers⟩ := ih (drop_succ_of_eq_cons htext) (by omega)
        exact ⟨e, List.mem_cons_of_mem _ he, hcovers⟩
      · exact ⟨_, List.mem_cons_self, hfrom, hcovered⟩
  | case6 position s rest tag htag ih =>
      refine ih (drop_succ_of_eq_cons htext) (Nat.lt_of_le_of_ne hfrom ?_)
      rintro rfl
      have hbegins := hwritten.isOn.openingTag_isPrefix
      rw [hcategory, htext] at hbegins
      exact htag (List.isPrefixOf_iff_prefix.mpr hbegins)

/-! ## The search for all categories -/

/-- The declarations are put in order by insertion. -/
theorem ofCategories_eq_insertionSort (categories : List Category) (line : Text) :
    ofCategories categories line
      = (categories.flatMap (ofCategory · line)).insertionSort fun d e =>
        d.position ≤ e.position := by
  have hinsert (d : Declaration) (found : List Declaration) : insertByPosition d found
      = found.orderedInsert (fun d e : Declaration => d.position ≤ e.position) d := by
    induction found with
    | nil => rfl
    | cons e rest ih => rw [insertByPosition, List.orderedInsert_cons, ih]
  rw [ofCategories]
  induction categories.flatMap (ofCategory · line) with
  | nil => rfl
  | cons d rest ih => rw [List.foldr_cons, ih, hinsert, List.insertionSort_cons]

theorem isWritten_of_mem_ofCategory {category : Category}
    (hcategory : category ∈ Category.inlineCategories) (hd : d ∈ ofCategory category line) :
    d.IsWritten line := by
  obtain ⟨rfl, hon⟩ := isOn_ofCategoryFrom 0 0 line rfl d hd
  obtain ⟨hnamed, hunquoted⟩ := named_ofCategoryFrom d hd
  exact ⟨(List.mem_filter.mp hcategory).2, hon, hnamed, hunquoted⟩

theorem isWritten_of_mem_onLine (hd : d ∈ onLine line) : d.IsWritten line := by
  obtain ⟨category, hcategory, hmem⟩ := mem_onLine.mp hd
  exact isWritten_of_mem_ofCategory hcategory hmem

theorem mem_ofCategory_of_mem_onLine (hd : d ∈ onLine line) :
    d ∈ ofCategory d.resource.category line := by
  obtain ⟨category, -, hmem⟩ := mem_onLine.mp hd
  rwa [((ordered_ofCategoryFrom category 0 0 line).1 d hmem).1]

/-- Declarations of different categories do not begin at one place, so that the order is strict. -/
theorem pairwise_onLine (line : Text) : (onLine line).Pairwise (·.position < ·.position) := by
  have hdistinct : (Category.inlineCategories.flatMap (ofCategory · line)).Pairwise
      fun d e => d.position ≠ e.position := by
    refine List.pairwise_flatMap.mpr ⟨fun category _ => ?_, ?_⟩
    · refine (ordered_ofCategoryFrom category 0 0 line).2.imp fun {d e} hlt heq => ?_
      have := d.position_lt_valueStart
      have := d.valueEnd_eq
      omega
    · refine List.Pairwise.imp_of_mem ?_ (by decide : Category.inlineCategories.Pairwise (· ≠ ·))
      intro a b ha hb hne d hd e he hsame
      have hdwritten := isWritten_of_mem_ofCategory ha hd
      have hewritten := isWritten_of_mem_ofCategory hb he
      have heq := eq_of_position_eq hdwritten.isOn hdwritten.unquoted hewritten.isOn
        hewritten.unquoted hsame
      have hdcategory := ((ordered_ofCategoryFrom a 0 0 line).1 d hd).1
      have hecategory := ((ordered_ofCategoryFrom b 0 0 line).1 e he).1
      exact hne (hdcategory.symm.trans ((congrArg (·.resource.category) heq).trans hecategory))
  have htotal : Std.Total fun d e : Declaration => d.position ≤ e.position :=
    ⟨fun d e => Nat.le_total d.position e.position⟩
  have htrans : IsTrans Declaration fun d e => d.position ≤ e.position :=
    ⟨fun _ _ _ => Nat.le_trans⟩
  rw [onLine, ofCategories_eq_insertionSort]
  have hsorted := List.pairwise_insertionSort (fun d e : Declaration => d.position ≤ e.position)
    (Category.inlineCategories.flatMap (ofCategory · line))
  refine (hsorted.and ?_).imp fun hboth => Nat.lt_of_le_of_ne hboth.1 hboth.2
  exact ((List.perm_insertionSort _ _).pairwise_iff Ne.symm).mpr hdistinct

/-- The search reads the declarations off a line: it finds declarations that are written there, each
one once and in order of position, and every declaration that is written there, unless it begins in
the name of another one of its category that is found. -/
structure FindsWritten (line : Text) : Prop where
  ordered : (onLine line).Pairwise (·.position < ·.position)
  written : ∀ d ∈ onLine line, d.IsWritten line
  /-- The name is ended by a quote. -/
  ended : ∀ d ∈ onLine line, (line.drop d.valueEnd).head? = some (.char '"')
  missed : ∀ d, d.IsWritten line → d ∈ onLine line ∨
    ∃ outer ∈ onLine line, outer.resource.category = d.resource.category ∧ d.BeginsInName outer
  /-- Of one category, none is found in the name of another. -/
  apart : ∀ d ∈ onLine line, ∀ e ∈ onLine line, d.resource.category = e.resource.category →
    d.position < e.position → d.valueEnd < e.position

/-- On every line, the search finds what is written. -/
theorem findsWritten (line : Text) : FindsWritten line where
  ordered := pairwise_onLine line
  written _ := isWritten_of_mem_onLine
  ended d hd := by
    have hwritten := isWritten_of_mem_onLine hd
    rw [List.head?_drop]
    exact (hwritten.isOn.getElem?_eq_quote_iff hwritten.unquoted
      (Nat.le_of_lt hwritten.isOn.valueEnd_lt.1) (Nat.le_refl _)).mpr (.inr rfl)
  missed d hd := by
    have hcategory : d.resource.category ∈ Category.inlineCategories :=
      List.mem_filter.mpr ⟨Category.mem_all _, hd.inline⟩
    obtain ⟨e, he, hle, hcovered⟩ := exists_covering hd rfl 0 0 line rfl (Nat.zero_le _)
    have hfound : e ∈ onLine line := mem_onLine.mpr ⟨_, hcategory, he⟩
    have hewritten := isWritten_of_mem_onLine hfound
    rcases Nat.lt_or_eq_of_le hle with hlt | heq
    · rcases lt_or_beginsInName hewritten.isOn hewritten.unquoted hd.isOn hd.unquoted hlt with
        hbehind | hbegins
      · omega
      · exact .inr ⟨e, hfound, ((ordered_ofCategoryFrom _ 0 0 line).1 e he).1, hbegins⟩
    · exact .inl
        (eq_of_position_eq hewritten.isOn hewritten.unquoted hd.isOn hd.unquoted heq ▸ hfound)
  apart d hd e he hsame hlt := by
    exact valueEnd_lt_of_position_lt (mem_ofCategory_of_mem_onLine hd)
      (hsame ▸ mem_ofCategory_of_mem_onLine he) hlt

/-- A tag in the name of another declaration of its category is passed over, one of another category
is not. -/
example :
    resourcesOn "<string name=\"<string name=\"a\"" = [⟨.string, "<string name="⟩]
      ∧ resourcesOn "<string name=\"<color name=\"a\""
        = [⟨.string, "<color name="⟩, ⟨.color, "a"⟩] := by
  decide

end Declaration

end ResourcePruner
