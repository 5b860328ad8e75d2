import ResourcePruner.Proofs.Definition.Composition
import ResourcePruner.Proofs.Usage.References

/-!
# Well-formed definition files

In a well-formed file every declaration stands on lines of its own and is ended on the last of them
(`Passage.IsWellFormed`). The notion looks at the texts alone: where the opening tag ends, what
stands right before it, and where the closing tag occurs first. Pruning such a file leaves out
exactly the lines of the doomed declarations (`Pruning.ofLines_wellFormed`).

The proof follows a block over its lines, from a cursor on the first of them: while its opening tag
goes on, then until its closing tag (`OpenBlock.EndsOver`). A declaration that ends over its lines
is cut out of them as a group of its own (`Layout.ofLinesAfter_of_endsOver`).
-/

namespace ResourcePruner

/-! ## Passages -/

/-- The text occurs on the last of the lines, and on none before. -/
def Text.OccursLast (sought : Text) (lines : List Text) : Prop :=
  ∃ earlier last, lines = earlier ++ [last] ∧ sought <:+: last ∧ ∀ line ∈ earlier,
    ¬ sought <:+: line

/-- What stands behind the name of a declaration, line by line, ends the declaration on its last
line. The first `>` ends the opening tag; either it is on the last line, right behind a `/`, or it
is not behind a `/` and the closing tag occurs after it, for the first time on the last line. -/
inductive Text.EndsLast (closingTag : Text) : List Text → Prop where
  | selfClosing (opened : List Text) (before after : Text) :
      (∀ line ∈ opened, .char '>' ∉ line) → .char '>' ∉ before →
        before.getLast? = some (.char '/') →
        EndsLast closingTag (opened ++ [before ++ .char '>' :: after])
  | closed (opened : List Text) (before after : Text) (body : List Text) :
      (∀ line ∈ opened, .char '>' ∉ line) → .char '>' ∉ before →
        before.getLast? ≠ some (.char '/') →
        Text.OccursLast closingTag (after :: body) →
        EndsLast closingTag (opened ++ (before ++ .char '>' :: after) :: body)

/-- What well-formed files are made of: lines that declare nothing, and declarations on lines of
their own. -/
inductive Passage where
  | filler (line : Text)
  | block (declaration : Declaration) (first : Text) (rest : List Text)

namespace Passage

/-- The lines of a passage. -/
def lines : Passage → List Text
  | filler line => [line]
  | block _ first rest => first :: rest

/-- The resource that a passage declares. -/
def declared? : Passage → Option Resource
  | filler _ => none
  | block declaration _ _ => some declaration.resource

/-- Whether a passage declares a doomed resource. -/
def isDoomed (doomed : Doomed) (passage : Passage) : Bool :=
  passage.declared?.any doomed

/-- A filler declares nothing. A block declares one resource on its first line and none on the
others, and ends on its last line. -/
def IsWellFormed : Passage → Prop
  | filler line => Declaration.onLine line = []
  | block declaration first rest =>
      Declaration.onLine first = [declaration]
        ∧ (∀ line ∈ rest, Declaration.onLine line = [])
        ∧ Text.EndsLast declaration.resource.category.closingTag
            (first.drop declaration.valueEnd :: rest)

/-- The part of a layout that a passage is. -/
def part : Passage → Part
  | filler line => .filler line
  | block declaration first rest => .group ⟨first :: rest, [declaration.resource]⟩

end Passage

/-! ## Finding on a line -/

theorem Text.indexFrom?_eq_none {sought text : Text} {start : Nat}
    (hsought : ¬ sought <:+: text.drop start) : indexFrom? sought text start = none := by
  rw [← occursIn_iff, occursIn, Bool.not_eq_true, Option.isSome_eq_false_iff,
    Option.isNone_iff_eq_none] at hsought
  rw [indexFrom?, hsought]
  split <;> rfl

theorem Text.exists_indexFrom?_eq {sought text : Text} {start : Nat} (hstart : start ≤ text.length)
    (hsought : sought <:+: text.drop start) : ∃ n, indexFrom? sought text start = some n := by
  rw [← occursIn_iff, occursIn, Option.isSome_iff_exists] at hsought
  obtain ⟨n, hn⟩ := hsought
  exact ⟨start + n, by rw [indexFrom?, if_pos hstart, hn]; rfl⟩

/-- A symbol is found behind what stands before its first occurrence. -/
theorem Text.indexFrom?_symbol {s : Symbol} {text before after : Text} {start : Nat}
    (htext : text.drop start = before ++ s :: after) (hbefore : s ∉ before) :
    indexFrom? [s] text start = some (start + before.length) := by
  have hstart : start ≤ text.length := by
    refine Nat.le_of_not_lt fun hlt => ?_
    rw [List.drop_eq_nil_of_le (Nat.le_of_lt hlt)] at htext
    simp at htext
  rw [indexFrom?, if_pos hstart, htext, indexOf?,
    firstSuffix?_eq_some_iff (n := before.length) |>.mpr ⟨by simp, by simp, fun m hm => ?_⟩]
  · rfl
  · rw [List.drop_append_of_le_length (Nat.le_of_lt hm), List.drop_eq_getElem_cons hm]
    refine Bool.eq_false_iff.mpr fun hbegins => hbefore ?_
    rw [List.isPrefixOf_iff_prefix, List.cons_append, List.cons_prefix_cons] at hbegins
    rw [hbegins.1]
    exact List.getElem_mem hm

/-- Whether a tag closes itself can be seen from what stands before its end. -/
theorem Declaration.isSelfClosing_iff {line before after : Text} {start : Nat}
    (hline : line.drop start = before ++ .char '>' :: after) (hstart : before = [] → start = 0) :
    isSelfClosing line (start + before.length) = true ↔ before.getLast? = some (.char '/') := by
  rw [isSelfClosing]
  rcases List.eq_nil_or_concat' before with rfl | ⟨front, last, rfl⟩
  · simp [hstart rfl]
  · have hdrop : line.drop (start + front.length) = last :: .char '>' :: after := by
      rw [← List.drop_drop, hline]
      simp
    have hlast : start + (front ++ [last]).length - 1 = start + front.length := by simp
    have hpos : 0 < start + (front ++ [last]).length := by
      rw [List.length_append]; exact Nat.succ_pos _
    rw [hlast, hdrop, List.getLast?_concat, decide_eq_true hpos]
    simp

/-! ## Following a block over its lines -/

namespace OpenBlock

variable {block : OpenBlock} {line before after : Text} {cursor : Nat}

/-- The block, open at the cursor of the first line, ends on the last line and not before. -/
def EndsOver (block : OpenBlock) (cursor : Nat) : List Text → Prop
  | [] => False
  | line :: rest =>
    match (seekEnd line block cursor).1 with
    | none => rest = []
    | some left => left.EndsOver 0 rest

theorem endsOver_cons_of_stays {left : OpenBlock} {rest : List Text}
    (hstays : (seekEnd line block cursor).1 = some left) (hrest : left.EndsOver 0 rest) :
    block.EndsOver cursor (line :: rest) := by
  rwa [EndsOver, hstays]

theorem endsOver_singleton (hends : (seekEnd line block cursor).1 = none) :
    block.EndsOver cursor [line] := by
  rw [EndsOver, hends]

/-- Behind its opening tag, a block ends over the lines on the last of which its closing tag
occurs. -/
theorem endsOver_of_occursLast (htag : block.inTag = false) {first : Text} {rest : List Text}
    (hcursor : cursor ≤ first.length)
    (hoccurs : Text.OccursLast block.closingTag (first.drop cursor :: rest)) :
    block.EndsOver cursor (first :: rest) := by
  have hseek : ∀ line cursor, seekEnd line block cursor = seekClosingTag line block cursor :=
    fun line cursor => by rw [seekEnd, htag]; rfl
  obtain ⟨earlier, last, hlines, hlast, hearlier⟩ := hoccurs
  induction earlier generalizing cursor first rest with
  | nil =>
      obtain ⟨rfl, rfl⟩ := List.cons.inj hlines
      obtain ⟨n, hn⟩ := Text.exists_indexFrom?_eq hcursor hlast
      exact endsOver_singleton (by rw [hseek, seekClosingTag, hn])
  | cons line earlier ih =>
      obtain ⟨rfl, rfl⟩ := List.cons.inj hlines
      obtain ⟨hfirst, hothers⟩ := List.forall_mem_cons.mp hearlier
      refine endsOver_cons_of_stays
        (by rw [hseek, seekClosingTag, Text.indexFrom?_eq_none hfirst]) ?_
      cases earlier with
      | nil | cons _ _ => exact ih (Nat.zero_le _) rfl hothers

/-- Lines without `>` leave an opening tag open. -/
theorem endsOver_of_opened (htag : block.inTag = true) {opened ended : List Text}
    (hended : ended ≠ [])
    (hopened : ∀ line ∈ opened, Symbol.char '>' ∉ line)
    (hends : ∀ cursor first rest, cursor = 0 ∨ (first.drop cursor).head? ≠ some (.char '>') →
      first.drop cursor :: rest = ended → block.EndsOver cursor (first :: rest))
    {first : Text} {rest : List Text}
    (hstart : cursor = 0 ∨ (first.drop cursor).head? ≠ some (.char '>'))
    (hlines : first.drop cursor :: rest = opened ++ ended) : block.EndsOver cursor
    (first :: rest) := by
  induction opened generalizing cursor first rest with
  | nil => exact hends cursor first rest hstart hlines
  | cons line opened ih =>
      obtain ⟨rfl, hrest⟩ := List.cons.inj hlines
      obtain ⟨hfirst, hothers⟩ := List.forall_mem_cons.mp hopened
      have hnone : Text.indexFrom? ">" first cursor = none :=
        Text.indexFrom?_eq_none fun hfound => hfirst (hfound.subset (List.mem_singleton_self _))
      have hstays : (seekEnd first block cursor).1 = some block := by
        simp only [seekEnd, htag, hnone, if_true]
      refine endsOver_cons_of_stays hstays ?_
      obtain ⟨next, more, rfl⟩ : ∃ next more, rest = next :: more :=
        List.exists_cons_of_ne_nil (hrest ▸ List.append_ne_nil_of_right_ne_nil opened hended)
      exact ih hothers (.inl rfl) hrest

/-- A block whose opening tag is open ends over the lines that end it on the last of them. -/
theorem endsOver_of_endsLast (htag : block.inTag = true) {first : Text} {rest : List Text}
    (hstart : cursor = 0 ∨ (first.drop cursor).head? ≠ some (.char '>'))
    (hends : Text.EndsLast block.closingTag (first.drop cursor :: rest)) :
    block.EndsOver cursor (first :: rest) := by
  generalize hbehind : first.drop cursor :: rest = behind at hends
  -- The first `>` cannot stand right at a cursor inside the line, where the name's quote is.
  have hcursor : ∀ {cursor : Nat} {line before after : Text},
      cursor = 0 ∨ (line.drop cursor).head? ≠ some (.char '>') →
      line.drop cursor = before ++ .char '>' :: after → before = [] → cursor = 0 := by
    rintro cursor line _ after hstart hline rfl
    exact hstart.resolve_right fun hne => hne (by rw [hline]; rfl)
  cases hends with
  | selfClosing opened before after hopened hbefore hslash =>
      refine endsOver_of_opened htag (List.cons_ne_nil _ _) hopened ?_ hstart hbehind
      intro cursor first rest hstart hlines
      obtain ⟨hfirst, rfl⟩ := List.cons.inj hlines
      have hfound : Text.indexFrom? ">" first cursor = some _ :=
        Text.indexFrom?_symbol hfirst hbefore
      have hself := (Declaration.isSelfClosing_iff hfirst (hcursor hstart hfirst)).mpr hslash
      exact endsOver_singleton (by simp only [seekEnd, htag, hfound, hself, if_true])
  | closed opened before after body hopened hbefore hslash hoccurs =>
      refine endsOver_of_opened htag (List.cons_ne_nil _ _) hopened ?_ hstart hbehind
      intro cursor first rest hstart hlines
      obtain ⟨hfirst, rfl⟩ := List.cons.inj hlines
      have hfound : Text.indexFrom? ">" first cursor = some _ :=
        Text.indexFrom?_symbol hfirst hbefore
      have hopen : Declaration.isSelfClosing first (cursor + before.length) = false :=
        Bool.eq_false_iff.mpr fun hself =>
          hslash ((Declaration.isSelfClosing_iff hfirst (hcursor hstart hfirst)).mp hself)
      have hafter : first.drop (cursor + before.length + 1) = after := by
        rw [Nat.add_assoc, ← List.drop_drop, hfirst]
        simp
      have hlength := congrArg List.length hfirst
      simp only [List.length_drop, List.length_append, List.length_cons] at hlength
      have hclosing : EndsOver { block with inTag := false } (cursor + before.length + 1)
          (first :: rest) :=
        endsOver_of_occursLast rfl (by omega) (by rwa [hafter])
      -- On this line the block goes the way of one whose opening tag has ended.
      have hseek : seekEnd first block cursor
          = seekEnd first { block with inTag := false } (cursor + before.length + 1) := by
        simp only [seekEnd, htag, hfound, hopen, if_true, Bool.false_eq_true, if_false]
      rwa [EndsOver, hseek]

end OpenBlock

/-! ## Passages are parts -/

/-- The quote that ends the name stands right where the name ends. -/
theorem Declaration.IsOn.head?_drop_valueEnd {d : Declaration} {line : Text} (hon : d.IsOn line) :
    (line.drop d.valueEnd).head? = some (.char '"') := by
  obtain ⟨behind, hline⟩ := hon
  rw [valueEnd, Nat.add_assoc, ← List.drop_drop, ← hline, ← List.length_append, List.append_assoc,
    List.drop_left]
  rfl

/-- A block that ends over some lines makes a group of them, with what is held before. -/
theorem Layout.ofLinesAfter_of_endsOver {held : Option (Group × OpenBlock)} {block : OpenBlock}
    {cursor : Nat} {line : Text} {rest : List Text} {g : Group}
    (hheld : (held.map Prod.fst).getD ⟨[], []⟩ = g)
    (hopen : ¬ (held.isNone && (Declaration.onLine line).isEmpty) = true)
    (hafter : OpenBlock.after line (Declaration.onLine line) (held.map Prod.snd)
      = (OpenBlock.seekEnd line block cursor).1)
    (hends : block.EndsOver cursor (line :: rest))
    (hplain : ∀ line ∈ rest, Declaration.onLine line = []) (more : List Text) :
    ofLinesAfter held (line :: rest ++ more)
      = cons (.group ⟨g.lines ++ line :: rest, g.declared ++ Declaration.resourcesOn line⟩)
          (ofLinesAfter none more) := by
  induction rest generalizing held block cursor line g with
  | nil =>
      have hended : (OpenBlock.seekEnd line block cursor).1 = none := by
        rw [OpenBlock.EndsOver] at hends
        split at hends
        · assumption
        · exact hends.elim
      rw [List.cons_append, ofLinesAfter, if_neg hopen]
      simp only [hheld, hafter, hended]
      rfl
  | cons next rest ih =>
      obtain ⟨hnext, hrest⟩ := List.forall_mem_cons.mp hplain
      rw [OpenBlock.EndsOver] at hends
      split at hends
      · cases hends
      next left hstays =>
        have hseek : OpenBlock.after next (Declaration.onLine next) (some left)
            = (OpenBlock.seekEnd next left 0).1 := by
          rw [hnext]
          rfl
        rw [List.cons_append, ofLinesAfter, if_neg hopen]
        simp only [hheld, hafter, hstays]
        have hcut := @ih (some (g.add line, left)) _ _ _ _ rfl (by simp) hseek hends hrest
        rw [hcut]
        simp [Group.add, Declaration.resourcesOn, hnext]

namespace Passage

variable {doomed : Doomed} {passages : List Passage}

/-- A well-formed passage is a part of its own wherever its lines stand. -/
theorem isUnit_part {passage : Passage} (hpassage : passage.IsWellFormed) :
    passage.part.IsUnit := by
  intro more
  cases passage with
  | filler line =>
      have hline : Declaration.onLine line = [] := hpassage
      rw [part, Part.lines, List.singleton_append, Layout.ofLinesAfter, if_pos (by simp [hline])]
  | block d first rest =>
      obtain ⟨hfirst, hrest, hlast⟩ := hpassage
      have hon := (Declaration.isOn_of_mem_onLine (hfirst ▸ List.mem_singleton_self d)).2
      have hends : (OpenBlock.ofDeclaration d).EndsOver d.valueEnd (first :: rest) :=
        OpenBlock.endsOver_of_endsLast rfl (.inr (by rw [hon.head?_drop_valueEnd]; decide)) hlast
      have hafter : OpenBlock.after first (Declaration.onLine first) none
          = (OpenBlock.seekEnd first (OpenBlock.ofDeclaration d) d.valueEnd).1 := by
        rw [hfirst]
        rfl
      have hcut :=
        @Layout.ofLinesAfter_of_endsOver none _ _ _ _ _ rfl (by simp [hfirst]) hafter hends
        hrest more
      rwa [Declaration.resourcesOn, hfirst] at hcut

theorem lines_part (passage : Passage) : passage.part.lines = passage.lines := by
  cases passage <;> rfl

/-- Well-formed passages are the layout of their lines. -/
theorem ofLines_flatMap_lines (hpassages : ∀ passage ∈ passages, passage.IsWellFormed) :
    Layout.ofLines (passages.flatMap lines) = ⟨passages.map part, none⟩ := by
  have hunits : ∀ p ∈ passages.map part, p.IsUnit :=
    List.forall_mem_map.mpr fun passage hmem => isUnit_part (hpassages passage hmem)
  have hlayout := Layout.ofLines_append hunits []
  rw [List.append_nil, List.flatMap_map] at hlayout
  simpa only [lines_part, Layout.ofLines, Layout.ofLinesAfter, List.append_nil] using hlayout

/-- What becomes of a passage. -/
theorem pruned_part (doomed : Doomed) (passage : Passage) :
    passage.part.kept doomed = (if passage.isDoomed doomed then [] else passage.lines)
      ∧ passage.part.removed doomed = passage.declared?.toList.filter doomed
      ∧ passage.part.droppedCount doomed
        = (if passage.isDoomed doomed then passage.lines.length else 0)
      ∧ passage.part.shared doomed = [] := by
  cases passage with
  | filler line => exact ⟨rfl, rfl, rfl, rfl⟩
  | block d first rest =>
      cases hdoomed : doomed d.resource <;>
        simp [part, Part.kept, Part.removed, Part.droppedCount, Part.shared, Group.isDropped,
          Group.doomedResources, isDoomed, declared?, lines, hdoomed]

theorem flatMap_kept_part (doomed : Doomed) (passages : List Passage) :
    (passages.map part).flatMap (Part.kept doomed)
      = (passages.filter (!·.isDoomed doomed)).flatMap lines := by
  induction passages with
  | nil => rfl
  | cons passage rest ih =>
      rw [List.map_cons, List.flatMap_cons, ih, (passage.pruned_part doomed).1, List.filter_cons]
      cases passage.isDoomed doomed <;> rfl

theorem flatMap_removed_part (doomed : Doomed) (passages : List Passage) :
    (passages.map part).flatMap (Part.removed doomed)
      = (passages.filterMap declared?).filter doomed := by
  induction passages with
  | nil => rfl
  | cons passage rest ih =>
      rw [List.map_cons, List.flatMap_cons, ih, (passage.pruned_part doomed).2.1,
        List.filterMap_cons]
      cases passage.declared? with
      | none => rfl
      | some r => rw [Option.toList_some, ← List.filter_append, List.singleton_append]

theorem sum_droppedCount_part (doomed : Doomed) (passages : List Passage) :
    ((passages.map part).map (Part.droppedCount doomed)).sum
      = ((passages.filter (·.isDoomed doomed)).flatMap lines).length := by
  induction passages with
  | nil => rfl
  | cons passage rest ih =>
      rw [List.map_cons, List.map_cons, List.sum_cons, ih, (passage.pruned_part doomed).2.2.1,
        List.filter_cons]
      cases passage.isDoomed doomed with
      | false => exact Nat.zero_add _
      | true => rw [if_pos rfl, if_pos rfl, List.flatMap_cons, List.length_append]

theorem flatMap_shared_part (doomed : Doomed) (passages : List Passage) :
    (passages.map part).flatMap (Part.shared doomed) = [] :=
  List.flatMap_eq_nil_iff.mpr <| List.forall_mem_map.mpr fun passage _ =>
    (passage.pruned_part doomed).2.2.2

end Passage

namespace Pruning

/-- **Pruning a well-formed file is exact.** Of its passages, those stay that declare no doomed
resource, as they are and in order. The doomed resources declared are all removed, the lines of
their declarations are counted, and nothing is shared or left open. -/
theorem ofLines_wellFormed {passages : List Passage}
    (hpassages : ∀ passage ∈ passages, passage.IsWellFormed) (doomed : Doomed) :
    ofLines doomed (passages.flatMap Passage.lines)
      = { lines := (passages.filter (!·.isDoomed doomed)).flatMap Passage.lines
          removed := ((passages.filterMap Passage.declared?).filter doomed).eraseDups
          droppedCount := ((passages.filter (·.isDoomed doomed)).flatMap Passage.lines).length
          unterminated := none
          shared := [] } := by
  rw [ofLines, Passage.ofLines_flatMap_lines hpassages]
  refine Pruning.mk.injEq .. |>.mpr
    ⟨(List.append_nil _).trans (Passage.flatMap_kept_part doomed passages),
    congrArg List.eraseDups (Passage.flatMap_removed_part doomed passages),
    Passage.sum_droppedCount_part doomed passages, rfl,
    congrArg List.eraseDups (Passage.flatMap_shared_part doomed passages)⟩

/-- A file with a tag that is split over lines and closes itself, and a block with a child that
closes itself. -/
def wideAndPlanets : List Passage :=
  [.filler (Text.ofString "<resources>\r\n"),
    .block ⟨⟨.style, Text.ofString "Wide"⟩, 2⟩ (Text.ofString "  <style name=\"Wide\"\n")
      [Text.ofString "    parent=\"Base\" />\n"],
    .block ⟨⟨.string, Text.ofString "gone"⟩, 0⟩
      (Text.ofString "<string name=\"gone\">Hello <br/>\n")
      [Text.ofString "world</string>\n"],
    .filler (Text.ofString "</resources>")]

theorem ofLines_wideAndPlanets :
    (∀ passage ∈ wideAndPlanets, passage.IsWellFormed)
      ∧ ofLines (·.category == .style) (wideAndPlanets.flatMap Passage.lines)
        = { lines :=
          (wideAndPlanets.filter (!·.isDoomed (·.category == .style))).flatMap Passage.lines
            removed := [⟨.style, Text.ofString "Wide"⟩]
            droppedCount := 2
            unterminated := none
            shared := [] } := by
  have hwide : Text.EndsLast Category.style.closingTag
      ((Text.ofString "  <style name=\"Wide\"\n").drop 19 ::
        [Text.ofString "    parent=\"Base\" />\n"]) :=
    .selfClosing [Text.ofString "\"\n"] (Text.ofString "    parent=\"Base\" /") (Text.ofString "\n")
      (by decide) (by decide) (by decide)
  have hgone : Text.EndsLast Category.string.closingTag
      ((Text.ofString "<string name=\"gone\">Hello <br/>\n").drop 18
        :: [Text.ofString "world</string>\n"]) :=
    .closed [] (Text.ofString "\"") (Text.ofString "Hello <br/>\n") _ (by decide) (by decide)
      (by decide)
      ⟨[Text.ofString "Hello <br/>\n"], _, rfl, Text.occursIn_iff.mp (by decide),
        List.forall_mem_singleton.mpr (mt Text.occursIn_iff.mpr (by decide))⟩
  have hpassages : ∀ passage ∈ wideAndPlanets, passage.IsWellFormed := by
    have hroot : Declaration.onLine (Text.ofString "<resources>\r\n") = [] := by decide
    have hend : Declaration.onLine (Text.ofString "</resources>") = [] := by decide
    simp only [wideAndPlanets, List.forall_mem_cons]
    exact ⟨hroot, ⟨by decide, by decide, hwide⟩, ⟨by decide, by decide, hgone⟩, hend,
      List.forall_mem_nil _⟩
  exact ⟨hpassages, ofLines_wellFormed hpassages (·.category == .style)⟩

end Pruning

end ResourcePruner
