import ResourcePruner.Proofs.Definition.Extents
import ResourcePruner.Proofs.Definition.Reread

/-!
# Pruning once more

What is left of a pruned definition file is not pruned of the same resources once more
(`Pruning.droppedCount_again`). Each part of a layout is cut out of its lines in the same way
wherever they stand (`Part.IsUnit`), so that the lines that stay are laid out as before, less the
groups that went (`Layout.ofLines_lines`). Read again, they may have been joined at a carriage
return; that changes what lines the groups have, but not what they declare
(`Layout.declaredGroups_regroups`).
-/

namespace ResourcePruner

/-! ## Line terminators and open blocks -/

/-- Text behind a text in which the last symbol sought does not occur holds no occurrence. -/
theorem Text.indexFrom?_append {last : Symbol} {ending : Text} (hending : last ∉ ending)
    (stem text : Text) (start : Nat) :
    indexFrom? (stem ++ [last]) (text ++ ending) start
      = indexFrom? (stem ++ [last]) text start := by
  have hnone : ∀ rest : Text, rest <:+ ending → indexOf? (stem ++ [last]) rest = none := by
    intro rest hrest
    refine firstSuffix?_eq_none_iff.mpr fun n _ => Bool.eq_false_iff.mpr fun hbegins => hending ?_
    have hmem : last ∈ rest.drop n := (List.isPrefixOf_iff_prefix.mp hbegins).subset (by simp)
    exact hrest.subset (List.mem_of_mem_drop hmem)
  have hsame : ∀ rest : Text,
      indexOf? (stem ++ [last]) (rest ++ ending) = indexOf? (stem ++ [last]) rest := by
    intro rest
    unfold indexOf?
    induction rest with
    | nil =>
        have hnil : (stem ++ [last]).isPrefixOf [] = false := by cases stem <;> rfl
        rw [List.nil_append, firstSuffix?, hnil]
        exact hnone ending List.suffix_rfl
    | cons s rest ih =>
        rw [List.cons_append, firstSuffix?, firstSuffix?, ← List.cons_append,
          isPrefixOf_append hending, ih]
  unfold indexFrom?
  by_cases hstart : start ≤ text.length
  · rw [if_pos hstart, if_pos (by rw [List.length_append]; omega),
      List.drop_append_of_le_length hstart, hsame]
  · rw [if_neg hstart]
    split
    · rw [List.drop_append, List.drop_eq_nil_of_le (by omega), List.nil_append,
        hnone _ (List.drop_suffix _ _), Option.map_none]
    · rfl

theorem Text.le_length_of_indexFrom? {sought text : Text} {start n : Nat}
    (hfound : indexFrom? sought text start = some n) : n ≤ text.length := by
  unfold indexFrom? at hfound
  split at hfound
  · obtain ⟨m, hm, rfl⟩ := Option.map_eq_some_iff.mp hfound
    have hle := (firstSuffix?_eq_some_iff.mp hm).1
    rw [List.length_drop] at hle
    omega
  · cases hfound

theorem Category.closingTag_eq (category : Category) :
    ∃ stem : Text, category.closingTag = stem ++ [.char '>'] :=
  ⟨"</" ++ category.key, rfl⟩

namespace OpenBlock

variable {line ending : Text} {block : OpenBlock} {r : Resource}

theorem isSelfClosing_append {n : Nat} (hn : n ≤ line.length) :
    Declaration.isSelfClosing (line ++ ending) n = Declaration.isSelfClosing line n := by
  unfold Declaration.isSelfClosing
  rcases Nat.eq_zero_or_pos n with rfl | hpos
  · simp
  · have hlt : n - 1 < line.length := by omega
    rw [List.head?_drop, List.head?_drop, List.getElem?_append_left hlt]

/-- A block left open is the same if the line goes on with a text without `>`; if it ends, it ends
at the same position. -/
theorem seekClosingTag_append (line : Text) (hof : block.IsOf r)
    (hending : Symbol.char '>' ∉ ending)
    (cursor : Nat) :
    (∃ n m, seekClosingTag (line ++ ending) block cursor = (some block, n)
      ∧ seekClosingTag line block cursor = (some block, m))
    ∨ seekClosingTag (line ++ ending) block cursor = seekClosingTag line block cursor
      ∧ (seekClosingTag line block cursor).1 = none := by
  obtain ⟨stem, hstem⟩ := r.category.closingTag_eq
  unfold seekClosingTag
  rw [hof.2.2, hstem, Text.indexFrom?_append hending]
  split
  · exact .inl ⟨_, _, rfl, rfl⟩
  · exact .inr ⟨rfl, rfl⟩

theorem seekEnd_append (line : Text) (hof : block.IsOf r) (hending : Symbol.char '>' ∉ ending)
    (cursor : Nat) :
    (∃ left n m, seekEnd (line ++ ending) block cursor = (some left, n)
      ∧ seekEnd line block cursor = (some left, m))
    ∨ seekEnd (line ++ ending) block cursor = seekEnd line block cursor
      ∧ (seekEnd line block cursor).1 = none := by
  have hclose : ∀ {block : OpenBlock}, block.IsOf r → ∀ cursor,
      (∃ left n m, seekClosingTag (line ++ ending) block cursor = (some left, n)
        ∧ seekClosingTag line block cursor = (some left, m))
      ∨ seekClosingTag (line ++ ending) block cursor = seekClosingTag line block cursor
        ∧ (seekClosingTag line block cursor).1 = none :=
    fun {block} hof cursor => (seekClosingTag_append line hof hending cursor).imp_left
      fun ⟨n, m, h⟩ => ⟨block, n, m, h⟩
  have htag : Text.indexFrom? ">" (line ++ ending) cursor = Text.indexFrom? ">" line cursor :=
    Text.indexFrom?_append hending [] line cursor
  unfold seekEnd
  rw [htag]
  split
  · cases hfound : Text.indexFrom? ">" line cursor with
    | none => exact .inl ⟨_, _, _, rfl, rfl⟩
    | some tagEnd =>
        simp only [isSelfClosing_append (Text.le_length_of_indexFrom? hfound)]
        split
        · exact .inr ⟨rfl, rfl⟩
        · exact hclose hof.closeTag _
  · exact hclose hof _

theorem afterFrom_append (hending : Symbol.char '>' ∉ ending) (found : List Declaration)
    (pending : Option OpenBlock) (cursor : Nat)
    (hpending : ∀ block, pending = some block → ∃ r, block.IsOf r) :
    afterFrom (line ++ ending) pending cursor found = afterFrom line pending cursor found := by
  induction found generalizing pending cursor with
  | nil =>
      cases pending with
      | none => rfl
      | some block =>
          obtain ⟨r, hof⟩ := hpending block rfl
          rcases seekEnd_append line hof hending cursor with
            ⟨left, n, m, hmore, hline⟩ | ⟨hmore, -⟩
          · simp [afterFrom, hmore, hline]
          · simp [afterFrom, hmore]
  | cons d others ih =>
      have hnone := fun cursor => ih none cursor (by simp)
      have hopened := ih (some (ofDeclaration d)) d.valueEnd fun block h =>
        ⟨d.resource, Option.some.inj h ▸ isOf_ofDeclaration d⟩
      cases pending with
      | none => simp only [afterFrom, hnone, hopened]
      | some block =>
          obtain ⟨r, hof⟩ := hpending block rfl
          rcases seekEnd_append line hof hending cursor with
            ⟨left, n, m, hmore, hline⟩ | ⟨hmore, -⟩
          · simp only [afterFrom, hmore, hline]
          · simp only [afterFrom, hmore, hnone, hopened]

theorem after_append (hending : Symbol.char '>' ∉ ending) (found : List Declaration)
    {pending : Option OpenBlock} (hpending : ∀ block, pending = some block → ∃ r, block.IsOf r) :
    after (line ++ ending) found pending = after line found pending :=
  afterFrom_append hending found pending 0 hpending

/-- A block stays open over an empty line. -/
theorem after_lineFeed (hblock : ∃ r, block.IsOf r) :
    after [.char '\n'] [] (some block) = some block := by
  obtain ⟨r, hof⟩ := hblock
  have hmore : after ([] ++ [.char '\n']) [] (some block) = after [] [] (some block) :=
    after_append (by decide) [] fun _ h => ⟨r, Option.some.inj h ▸ hof⟩
  rw [List.nil_append] at hmore
  obtain ⟨stem, hstem⟩ := r.category.closingTag_eq
  have hclose : Text.indexFrom? block.closingTag [] 0 = none := by
    rw [hof.2.2, hstem]
    cases stem <;> rfl
  have htag : Text.indexFrom? ">" [] 0 = none := rfl
  rw [hmore, after, afterFrom, Option.bind_some, seekEnd, htag, seekClosingTag, hclose]
  split <;> rfl

/-- The block left open behind a line belongs to a declaration, too. -/
theorem isOf_of_after {found : List Declaration} {pending : Option OpenBlock}
    (hpending : ∀ block, pending = some block → ∃ r, block.IsOf r) {left : OpenBlock}
    (hleft : after line found pending = some left) : ∃ r, left.IsOf r := by
  unfold after at hleft
  generalize 0 = cursor at hleft
  induction found generalizing pending cursor with
  | nil =>
      obtain ⟨block, rfl, hseek⟩ := Option.bind_eq_some_iff.mp hleft
      exact (hpending block rfl).imp fun r hof => hof.of_seekEnd hseek
  | cons d others ih =>
      have hopened : ∀ block, some (ofDeclaration d) = some block → ∃ r, block.IsOf r :=
        fun block h => ⟨d.resource, Option.some.inj h ▸ isOf_ofDeclaration d⟩
      have hnone : ∀ block : OpenBlock, none = some block → ∃ r, block.IsOf r := fun _ h =>
        nomatch h
      cases pending with
      | none =>
          simp only [afterFrom] at hleft
          split at hleft
          · exact ih hnone _ hleft
          · exact ih hopened _ hleft
      | some block =>
          cases hseek : seekEnd line block cursor with
          | mk open' position =>
              simp only [afterFrom, hseek] at hleft
              split at hleft
              · rename_i heq
                obtain ⟨rfl, -⟩ := Prod.mk.inj heq
                obtain rfl := Option.some.inj hleft
                exact (hpending block rfl).imp fun r hof => hof.of_seekEnd (congrArg Prod.fst hseek)
              · split at hleft
                · exact ih hnone _ hleft
                · exact ih hopened _ hleft

end OpenBlock

/-! ## Parts are cut out alike wherever they stand -/

/-- Where the lines of the part come next, the part is cut out of them. -/
def Part.IsUnit (part : Part) : Prop :=
  ∀ rest, Layout.ofLinesAfter none (part.lines ++ rest)
    = Layout.cons part (Layout.ofLinesAfter none rest)

/-- Where the lines of the group come next, the group is held behind them and leaves the block
open. -/
def Group.IsHeld (group : Group) (block : OpenBlock) : Prop :=
  ∀ rest, Layout.ofLinesAfter none (group.lines ++ rest)
    = Layout.ofLinesAfter (some (group, block)) rest

namespace Layout

/-- All parts of a layout are units, and the group left open at the end is held wherever its lines
stand. -/
theorem isUnit_ofLinesAfter (held : Option (Group × OpenBlock)) (text : List Text)
    (hheld : ∀ g b, held = some (g, b) → g.IsHeld b) :
    (∀ part ∈ (ofLinesAfter held text).parts, part.IsUnit)
      ∧ ∀ g b, (ofLinesAfter held text).tail = some (g, b) → g.IsHeld b := by
  -- What comes next goes the same way as it did behind the group held.
  have hback : ∀ line rest,
      ofLinesAfter none (((held.map Prod.fst).getD ⟨[], []⟩).lines ++ line :: rest)
      = ofLinesAfter held (line :: rest) := by
    intro line rest
    cases held with
    | none => rfl
    | some entry => exact hheld entry.1 entry.2 rfl (line :: rest)
  fun_induction ofLinesAfter held text with
  | case1 held => exact ⟨List.forall_mem_nil _, hheld⟩
  | case2 held line rest hfresh ih =>
      obtain ⟨hparts, htail⟩ := ih (by simp) fun _ _ => rfl
      refine ⟨List.forall_mem_cons.mpr ⟨fun more => ?_, hparts⟩, htail⟩
      rw [Bool.and_eq_true] at hfresh
      rw [Part.lines, List.singleton_append, ofLinesAfter, if_pos (by simp [hfresh.2])]
  | case3 held line rest hopen group block hafter ih =>
      have hgrown : group.IsHeld block := by
        intro more
        have hlines : group.lines ++ more
            = ((held.map Prod.fst).getD ⟨[], []⟩).lines ++ line :: more := by
          simp [group, Group.add]
        rw [hlines, hback, ofLinesAfter, if_neg hopen, hafter]
      refine ih ?_ fun line' more => hgrown (line' :: more)
      rintro g b ⟨rfl, rfl⟩
      exact hgrown
  | case4 held line rest hopen group hafter ih =>
      obtain ⟨hparts, htail⟩ := ih (by simp) fun _ _ => rfl
      refine ⟨List.forall_mem_cons.mpr ⟨fun more => ?_, hparts⟩, htail⟩
      have hlines : (Part.group group).lines ++ more
          = ((held.map Prod.fst).getD ⟨[], []⟩).lines ++ line :: more := by
        simp [Part.lines, group, Group.add]
      rw [hlines, hback, ofLinesAfter, if_neg hopen, hafter]

end Layout

/-- Whether a part stays. -/
def Part.stays (doomed : Doomed) : Part → Bool
  | filler _ => true
  | group g => !g.isDropped doomed

theorem Part.kept_eq_ite (doomed : Doomed) (part : Part) :
    part.kept doomed = if part.stays doomed then part.lines else [] := by
  cases part with
  | filler line => rfl
  | group g => cases hdrop : g.isDropped doomed <;> simp [kept, stays, lines, hdrop]

namespace Layout

theorem isUnit_ofLines (text : List Text) : ∀ part ∈ (ofLines text).parts, part.IsUnit :=
  (isUnit_ofLinesAfter none text nofun).1

/-- Units fall apart again, whatever comes after them. -/
theorem ofLines_append {parts : List Part} (hunits : ∀ part ∈ parts, part.IsUnit)
    (rest : List Text) :
    ofLines (parts.flatMap Part.lines ++ rest)
      = { ofLines rest with parts := parts ++ (ofLines rest).parts } := by
  induction parts with
  | nil => rfl
  | cons part parts ih =>
      obtain ⟨hpart, hparts⟩ := List.forall_mem_cons.mp hunits
      rw [List.flatMap_cons, List.append_assoc, ofLines, hpart, ← ofLines, ih hparts]
      rfl

/-- What is never ended does not depend on the lines before it. -/
theorem ofLines_tailLines (text : List Text) :
    ofLines (ofLines text).tailLines = ⟨[], (ofLines text).tail⟩ := by
  obtain ⟨-, htail⟩ := isUnit_ofLinesAfter none text nofun
  rw [← ofLines] at htail
  unfold tailLines
  cases hheld : (ofLines text).tail with
  | none => rfl
  | some entry =>
      have hend := htail entry.1 entry.2 hheld []
      rw [List.append_nil] at hend
      exact hend

end Layout

theorem Part.flatMap_kept (doomed : Doomed) (parts : List Part) :
    parts.flatMap (Part.kept doomed) = (parts.filter (Part.stays doomed)).flatMap Part.lines := by
  induction parts with
  | nil => rfl
  | cons part rest ih =>
      rw [List.flatMap_cons, List.filter_cons, ih, Part.kept_eq_ite]
      split <;> rfl

/-- Dropped groups leave the rest of the layout as it was. -/
theorem Layout.ofLines_lines (doomed : Doomed) (text : List Text) :
    ofLines (Pruning.ofLines doomed text).lines
      = ⟨(ofLines text).parts.filter (Part.stays doomed), (ofLines text).tail⟩ := by
  have hlines : (Pruning.ofLines doomed text).lines
      = ((ofLines text).parts.filter (Part.stays doomed)).flatMap Part.lines
        ++ (ofLines text).tailLines :=
    congrArg (· ++ (ofLines text).tailLines) (Part.flatMap_kept doomed (ofLines text).parts)
  rw [hlines,
    ofLines_append fun part hpart => isUnit_ofLines text part (List.mem_filter.mp hpart).1,
    ofLines_tailLines, List.append_nil]

/-! ## What groups declare -/

/-- What the group declares, if the part is one. -/
def Part.declared? : Part → Option (List Resource)
  | filler _ => none
  | group g => some g.declared

namespace Layout

/-- What the groups declare into which lines fall, when a group that declares as much is held and
leaves the block open. -/
def declaredGroups : (held : Option (List Resource × OpenBlock)) → List Text → List (List Resource)
  | _, [] => []
  | held, line :: rest =>
    if held.isNone && (Declaration.onLine line).isEmpty then
      declaredGroups none rest
    else
      let declared := ((held.map Prod.fst).getD []) ++ Declaration.resourcesOn line
      match OpenBlock.after line (Declaration.onLine line) (held.map Prod.snd) with
      | some block => declaredGroups (some (declared, block)) rest
      | none => declared :: declaredGroups none rest

theorem filterMap_declared?_ofLinesAfter (held : Option (Group × OpenBlock)) (text : List Text) :
    (ofLinesAfter held text).parts.filterMap Part.declared?
      = declaredGroups (held.map fun entry => (entry.1.declared, entry.2)) text := by
  have hdeclared : ∀ (held : Option (Group × OpenBlock)) (line : Text),
      (((held.map Prod.fst).getD ⟨[], []⟩).add line).declared
        = (((held.map fun entry => (entry.1.declared, entry.2)).map Prod.fst).getD [])
          ++ Declaration.resourcesOn line := by
    intro held line
    cases held <;> rfl
  fun_induction ofLinesAfter held text with
  | case1 held => rfl
  | case2 held line rest hfresh ih =>
      rw [declaredGroups, if_pos (by simpa using hfresh)]
      exact ih
  | case3 held line rest hopen group block hafter ih =>
      rw [ih, declaredGroups, if_neg (by simpa using hopen), ← hdeclared, Option.map_map]
      simp only [Function.comp_def, hafter]
      rfl
  | case4 held line rest hopen group hafter ih =>
      rw [declaredGroups, if_neg (by simpa using hopen), ← hdeclared, Option.map_map]
      simp only [Function.comp_def, hafter]
      exact congrArg (group.declared :: ·) ih

/-- Lines joined at a carriage return make no difference to what groups declare. -/
theorem declaredGroups_regroups {given again : List Text} (hregroups : Text.Regroups given again)
    (held : Option (List Resource × OpenBlock))
    (hheld : ∀ declared block, held = some (declared, block) → ∃ r, block.IsOf r) :
    declaredGroups held again = declaredGroups held given := by
  have hpending : ∀ {held : Option (List Resource × OpenBlock)},
      (∀ declared block, held = some (declared, block) → ∃ r, block.IsOf r) →
      ∀ block, held.map Prod.snd = some block → ∃ r, block.IsOf r := by
    intro held hheld block hblock
    obtain ⟨⟨declared, block⟩, rfl, rfl⟩ := Option.map_eq_some_iff.mp hblock
    exact hheld declared block rfl
  induction hregroups generalizing held with
  | nil => rfl
  | keep line _ ih =>
      have hnone := @ih none nofun
      rw [declaredGroups, declaredGroups, hnone]
      cases hafter : OpenBlock.after line (Declaration.onLine line) (held.map Prod.snd) with
      | none => rfl
      | some block =>
          simp only
          rw [ih]
          rintro _ _ ⟨rfl, rfl⟩
          exact OpenBlock.isOf_of_after (hpending hheld) hafter
  | @join body hbody given again _ ih =>
      have hquote : Symbol.char '"' ∉ ([.char '\n'] : Text) := by decide
      have htag : Symbol.char '>' ∉ ([.char '\n'] : Text) := by decide
      have hline :
          body ++ [.char '\r', .char '\n'] = (body ++ [.char '\r']) ++ [.char '\n'] := by simp
      have hfeed : Declaration.onLine [.char '\n'] = [] := by decide
      have hnone := @ih none nofun
      have hblank : declaredGroups none ([.char '\n'] :: given) = declaredGroups none given := by
        rw [declaredGroups, if_pos (by rw [hfeed]; rfl)]
      rw [hline, declaredGroups, declaredGroups, Declaration.onLine_append hquote,
        Declaration.resourcesOn_append hquote,
        OpenBlock.after_append htag _ (hpending hheld), hnone, hblank]
      cases hafter :
        OpenBlock.after (body ++ [.char '\r']) (Declaration.onLine (body ++ [.char '\r']))
          (held.map Prod.snd) with
      | none => rfl
      | some block =>
          -- The line feed on a line of its own declares nothing and leaves the block as it is.
          have hblock := OpenBlock.isOf_of_after (hpending hheld) hafter
          have hopen : OpenBlock.after [.char '\n'] (Declaration.onLine [.char '\n']) (some block)
              = some block := hfeed ▸ OpenBlock.after_lineFeed hblock
          have hresources : Declaration.resourcesOn [.char '\n'] = [] := by
            rw [Declaration.resourcesOn, hfeed, List.map_nil]
          generalize hdeclared : (held.map Prod.fst).getD []
            ++ Declaration.resourcesOn (body ++ [.char '\r']) = declared
          simp only [declaredGroups, Option.isNone_some, Bool.false_and, Bool.false_eq_true,
            if_false, Option.map_some, hopen, Option.getD_some, hresources, List.append_nil]
          rw [ih]
          rintro _ _ ⟨rfl, rfl⟩
          exact hblock

end Layout

/-! ## Pruning what is left -/

namespace Layout

theorem mem_resourcesOn_of_mem_declared {text : List Text} {g : Group} {r : Resource}
    (hg : Part.group g ∈ (ofLines text).parts ∨ ∃ block, (ofLines text).tail = some (g, block))
    (hr : r ∈ g.declared) : r ∈ text.flatMap Declaration.resourcesOn := by
  obtain ⟨hparts, htail⟩ := isExact_ofLinesAfter none text nofun
  have hexact : g.IsExact := hg.elim (hparts g) fun ⟨block, h⟩ => htail g block h
  have hlines : g.lines ⊆ text := by
    intro line hline
    rw [← lines_ofLines text, Layout.lines, List.mem_append]
    refine hg.imp (fun h => List.mem_flatMap.mpr ⟨.group g, h, hline⟩) fun ⟨block, h⟩ => ?_
    rw [tailLines, h]
    exact hline
  rw [hexact] at hr
  obtain ⟨line, hline, hr⟩ := List.mem_flatMap.mp hr
  exact List.mem_flatMap.mpr ⟨line, hlines hline, hr⟩

end Layout

namespace Pruning

/-- **A pruned file is not pruned again** of resources that it was pruned of already. -/
theorem droppedCount_again {doomed doomed' : Doomed} {text : Text}
    (hless : ∀ r ∈ (Text.linesWithEnds (ofLines doomed (Text.linesWithEnds text)).text).flatMap
      Declaration.resourcesOn, doomed' r = true → doomed r = true) :
    (ofLines doomed'
      (Text.linesWithEnds (ofLines doomed (Text.linesWithEnds text)).text)).droppedCount
      = 0 := by
  refine Nat.eq_zero_of_not_pos fun hdropped => ?_
  obtain ⟨g, hg, hdrop⟩ := droppedCount_pos_iff.mp hdropped
  -- A group that declares as much stayed when the file was pruned first.
  have hdeclared : g.declared ∈ Layout.declaredGroups none
      (Text.linesWithEnds (ofLines doomed (Text.linesWithEnds text)).text) := by
    rw [← Option.map_none, ← Layout.filterMap_declared?_ofLinesAfter]
    exact List.mem_filterMap.mpr ⟨.group g, hg, rfl⟩
  have hwhole :=
    (Text.whole_linesWithEnds text).sublist (lines_sublist doomed (Text.linesWithEnds text))
  have hregroups := Layout.declaredGroups_regroups hwhole.regroups none nofun
  rw [Pruning.text, hregroups, ← Option.map_none,
    ← Layout.filterMap_declared?_ofLinesAfter] at hdeclared
  obtain ⟨part, hpart, hsame⟩ := List.mem_filterMap.mp hdeclared
  rw [← Layout.ofLines, Layout.ofLines_lines] at hpart
  obtain ⟨-, hstays⟩ := List.mem_filter.mp hpart
  cases part with
  | filler _ => cases hsame
  | group first =>
      have heq : first.declared = g.declared := Option.some.inj hsame
      rw [Group.isDropped, Bool.and_eq_true] at hdrop
      have hdoomed : g.declared.all doomed = true := List.all_eq_true.mpr fun r hr =>
        hless r (Layout.mem_resourcesOn_of_mem_declared (.inl hg) hr)
          (List.all_eq_true.mp hdrop.2 r hr)
      simp [Part.stays, Group.isDropped, heq, hdrop.1, hdoomed] at hstays

/-- Only what is doomed among the resources declared matters. -/
theorem ofLines_congr {doomed doomed' : Doomed} {lines : List Text}
    (hsame : ∀ r ∈ lines.flatMap Declaration.resourcesOn, doomed r = doomed' r) :
    ofLines doomed lines = ofLines doomed' lines := by
  have hdeclared : ∀ g, (Part.group g ∈ (Layout.ofLines lines).parts
      ∨ ∃ block, (Layout.ofLines lines).tail = some (g, block)) → ∀ r ∈ g.declared,
        doomed r = doomed' r :=
    fun g hg r hr => hsame r (Layout.mem_resourcesOn_of_mem_declared hg hr)
  have hdropped : ∀ g, Part.group g ∈ (Layout.ofLines lines).parts →
      g.isDropped doomed = g.isDropped doomed' := by
    intro g hg
    rw [Group.isDropped, Group.isDropped, Bool.eq_iff_iff, Bool.and_eq_true, Bool.and_eq_true,
      List.all_eq_true, List.all_eq_true]
    exact and_congr_right fun _ => forall₂_congr fun r hr => by rw [hdeclared g (.inl hg) r hr]
  have hresources : ∀ g, Part.group g ∈ (Layout.ofLines lines).parts →
      g.doomedResources doomed = g.doomedResources doomed' :=
    fun g hg => List.filter_congr (hdeclared g (.inl hg))
  have hparts : ∀ part ∈ (Layout.ofLines lines).parts, part.kept doomed = part.kept doomed'
      ∧ part.removed doomed = part.removed doomed'
      ∧ part.droppedCount doomed = part.droppedCount doomed'
      ∧ part.shared doomed = part.shared doomed' := by
    intro part hpart
    cases part with
    | filler _ => exact ⟨rfl, rfl, rfl, rfl⟩
    | group g =>
        simp only [Part.kept, Part.removed, Part.droppedCount, Part.shared, hdropped g hpart,
          hresources g hpart, and_self]
  have htail : doomedTail doomed (Layout.ofLines lines).tail
      = doomedTail doomed' (Layout.ofLines lines).tail := by
    unfold doomedTail
    cases hheld : (Layout.ofLines lines).tail with
    | none => rfl
    | some entry =>
        have hany : entry.1.declared.any doomed = entry.1.declared.any doomed' := by
          rw [Bool.eq_iff_iff, List.any_eq_true, List.any_eq_true]
          exact exists_congr fun r => and_congr_right fun hr => by
            rw [hdeclared entry.1 (.inr ⟨entry.2, hheld⟩) r hr]
        simp only [Option.filter_some, hany]
  unfold ofLines ofLayout
  simp only [List.flatMap_def]
  rw [htail, List.map_congr_left fun part h => (hparts part h).1,
    List.map_congr_left fun part h => (hparts part h).2.1,
    List.map_congr_left fun part h => (hparts part h).2.2.1,
    List.map_congr_left fun part h => (hparts part h).2.2.2]

end Pruning

end ResourcePruner
