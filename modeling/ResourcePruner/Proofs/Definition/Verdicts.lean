import ResourcePruner.Proofs.Definition.Composition

/-!
# What a pruning reports

A doomed resource that a definition file declares is taken out, shared, or declared in the group
that the end of the file leaves open; `Pruning.Reports` says what each of the three reports means in
terms of the lines that go and stay. The groups decide: a declaration on a line belongs to the group
of that line (`Layout.isExact_ofLinesAfter`), and to no other.
-/

namespace ResourcePruner

/-! ## The block open at the end -/

theorem OpenBlock.afterLines_cons (before : Option OpenBlock) (line : Text) (rest : List Text) :
    afterLines before
    (line :: rest) = afterLines (after line (Declaration.onLine line) before) rest :=
  rfl

namespace Layout

@[simp] theorem tail_cons (part : Part) (layout : Layout) :
    (cons part layout).tail = layout.tail := rfl

/-- The tail leaves open the block that reading all lines leaves open. -/
theorem map_snd_tail_ofLinesAfter (held : Option (Group × OpenBlock)) (text : List Text) :
    (ofLinesAfter held text).tail.map Prod.snd = OpenBlock.afterLines (held.map Prod.snd) text := by
  fun_induction ofLinesAfter held text with
  | case1 held => rfl
  | case2 held line rest hfresh ih =>
      obtain ⟨hnone, hfound⟩ := Bool.and_eq_true_iff.mp hfresh
      obtain rfl := Option.isNone_iff_eq_none.mp hnone
      rw [tail_cons, ih, Option.map_none, OpenBlock.afterLines_cons,
        OpenBlock.after_of_onLine_eq_nil (List.isEmpty_iff.mp hfound)]
  | case3 held line rest _ group block hafter ih =>
      rw [ih, OpenBlock.afterLines_cons, hafter]
      rfl
  | case4 held line rest _ group hafter ih =>
      rw [tail_cons, ih, OpenBlock.afterLines_cons, hafter]
      rfl

theorem map_snd_tail_ofLines (text : List Text) :
    (ofLines text).tail.map Prod.snd = OpenBlock.afterLines none text :=
  map_snd_tail_ofLinesAfter none text

/-- Lines that leave no block open are the lines of their parts. -/
theorem flatMap_lines_of_afterLines {text : List Text}
    (hended : OpenBlock.afterLines none text = none) :
    (ofLines text).parts.flatMap Part.lines = text := by
  rw [← map_snd_tail_ofLines, Option.map_eq_none_iff] at hended
  have hlines := lines_ofLines text
  rwa [Layout.lines, tailLines, hended, Option.map_none, Option.getD_none,
    List.append_nil] at hlines

/-- From the first line of the tail on, a block is open. -/
theorem afterLines_ne_none_of_prefix {text started : List Text}
    (hstart : started <+: (ofLines text).tailLines) (hne : started ≠ []) :
    OpenBlock.afterLines none started ≠ none := by
  intro hended
  obtain ⟨more, hmore⟩ := hstart
  have hstarted := flatMap_lines_of_afterLines hended
  -- What has ended already would be a part of its own, but the tail has none.
  have hparts := congrArg Layout.parts (ofLines_append (isUnit_ofLines started) more)
  rw [hstarted, hmore, ofLines_tailLines] at hparts
  rw [(List.append_eq_nil_iff.mp hparts.symm).1] at hstarted
  exact hne hstarted.symm

theorem resourcesOn_tailLines {text : List Text} {g : Group} {block : OpenBlock}
    (htail : (ofLines text).tail = some (g, block)) :
    (ofLines text).tailLines.flatMap Declaration.resourcesOn = g.declared := by
  rw [tailLines, htail]
  exact ((isExact_ofLinesAfter none text (by simp)).2 g block htail).symm

end Layout

namespace Pruning

variable {doomed : Doomed} {lines : List Text} {line : Text} {r : Resource}

/-! ## What is taken out -/

/-- What is declared on a line that goes is taken out. -/
theorem mem_removed_of_mem_marked (hline : (line, false) ∈ marked doomed lines) :
    ∀ r ∈ Declaration.resourcesOn line, r ∈ (ofLines doomed lines).removed := by
  intro r hr
  obtain ⟨g, hg, hdrop, hmem⟩ := exists_group_of_mem_marked hline
  have hdeclared : r ∈ g.declared := by
    rw [Layout.isExact_ofLines hg]
    exact List.mem_flatMap.mpr ⟨line, hmem, hr⟩
  rw [ofLines, ofLayout, List.mem_eraseDups]
  refine List.mem_flatMap.mpr ⟨_, hg, ?_⟩
  rw [Part.removed, if_pos hdrop]
  exact List.mem_filter.mpr ⟨hdeclared, doomed_of_mem_marked hline r hr⟩

/-- What is taken out is declared on a line that goes. -/
theorem exists_mem_marked_of_mem_removed (hr : r ∈ (ofLines doomed lines).removed) :
    ∃ line, (line, false) ∈ marked doomed lines ∧ r ∈ Declaration.resourcesOn line := by
  rw [ofLines, ofLayout, List.mem_eraseDups] at hr
  obtain ⟨part, hpart, hr⟩ := List.mem_flatMap.mp hr
  cases part with
  | filler line => cases hr
  | group g =>
      rw [Part.removed] at hr
      split at hr
      case isFalse => cases hr
      case isTrue hdrop =>
        have hdeclared : r ∈ g.declared := (List.mem_filter.mp hr).1
        rw [Layout.isExact_ofLines hpart] at hdeclared
        obtain ⟨line, hline, hr⟩ := List.mem_flatMap.mp hdeclared
        exact ⟨line, mem_marked_of_isDropped hpart hdrop hline, hr⟩

/-- What is taken out is doomed. -/
theorem doomed_of_mem_removed (hr : r ∈ (ofLines doomed lines).removed) : doomed r = true := by
  obtain ⟨line, hline, hr⟩ := exists_mem_marked_of_mem_removed hr
  exact doomed_of_mem_marked hline r hr

/-- A resource that is not taken out keeps its lines. -/
theorem filter_lines_of_not_mem_removed (hr : r ∉ (ofLines doomed lines).removed) :
    (ofLines doomed lines).lines.filter (fun line => r ∈ Declaration.resourcesOn line)
      = lines.filter (fun line => r ∈ Declaration.resourcesOn line) :=
  filter_lines_eq fun _ hline => decide_eq_false fun hdeclared =>
    hr (mem_removed_of_mem_marked hline r hdeclared)

/-! ## What is shared, and what is left open -/

/-- What is shared is declared on a line that stays. -/
theorem exists_mem_lines_of_mem_shared (hr : r ∈ (ofLines doomed lines).shared) :
    ∃ line ∈ (ofLines doomed lines).lines, r ∈ Declaration.resourcesOn line := by
  rw [ofLines, ofLayout, List.mem_eraseDups] at hr
  obtain ⟨part, hpart, hr⟩ := List.mem_flatMap.mp hr
  cases part with
  | filler line => cases hr
  | group g =>
      rw [Part.shared] at hr
      split at hr
      case isTrue => cases hr
      case isFalse hstays =>
        have hdeclared : r ∈ g.declared := (List.mem_filter.mp hr).1
        rw [Layout.isExact_ofLines hpart] at hdeclared
        obtain ⟨line, hline, hr⟩ := List.mem_flatMap.mp hdeclared
        refine ⟨line, List.mem_append_left _ (List.mem_flatMap.mpr ⟨_, hpart, ?_⟩), hr⟩
        rwa [Part.kept, if_neg hstays]

/-- A block is reported exactly when a doomed resource is declared in the group left open. -/
theorem unterminated_ne_none_iff :
    (ofLines doomed lines).unterminated ≠ none
      ↔ ∃ r ∈ (Layout.ofLines lines).tailLines.flatMap Declaration.resourcesOn,
      doomed r = true := by
  change doomedTail doomed (Layout.ofLines lines).tail ≠ none ↔ _
  cases htail : (Layout.ofLines lines).tail with
  | none => simp [doomedTail, Layout.tailLines, htail]
  | some entry =>
      rw [Layout.resourcesOn_tailLines htail]
      simp [doomedTail, Option.filter_some]

/-- The block reported is the one that is open behind the lines. -/
theorem afterLines_of_unterminated {block : OpenBlock}
    (hblock : (ofLines doomed lines).unterminated = some block) :
    OpenBlock.afterLines none lines = some block := by
  obtain ⟨entry, hentry, rfl⟩ := Option.map_eq_some_iff.mp hblock
  rw [← Layout.map_snd_tail_ofLines, (Option.filter_eq_some_iff.mp hentry).1]
  rfl

/-- A doomed resource of some line is taken out, shared, or declared in the tail. -/
theorem reported_of_mem_resourcesOn (hline : line ∈ lines) (hr : r ∈ Declaration.resourcesOn line)
    (hdoomed : doomed r = true) :
    r ∈ (ofLines doomed lines).removed ∨ r ∈ (ofLines doomed lines).shared
      ∨ r ∈ (Layout.ofLines lines).tailLines.flatMap Declaration.resourcesOn := by
  rw [← Layout.lines_ofLines lines, Layout.lines] at hline
  rcases List.mem_append.mp hline with hline | hline
  · obtain ⟨part, hpart, hline⟩ := List.mem_flatMap.mp hline
    cases part with
    | filler plain =>
        obtain rfl := List.mem_singleton.mp hline
        rw [Layout.resourcesOn_filler_ofLinesAfter none lines line hpart] at hr
        cases hr
    | group g =>
        have hmem : r ∈ g.doomedResources doomed := by
          refine List.mem_filter.mpr ⟨?_, hdoomed⟩
          rw [Layout.isExact_ofLines hpart]
          exact List.mem_flatMap.mpr ⟨line, hline, hr⟩
        simp only [ofLines, ofLayout, List.mem_eraseDups]
        cases hdrop : g.isDropped doomed with
        | true => exact .inl (List.mem_flatMap.mpr ⟨_, hpart, by rwa [Part.removed, if_pos hdrop]⟩)
        | false =>
            refine .inr (.inl (List.mem_flatMap.mpr ⟨_, hpart, ?_⟩))
            rwa [Part.shared, if_neg (Bool.eq_false_iff.mp hdrop)]
  · exact .inr (.inr (List.mem_flatMap.mpr ⟨line, hline, hr⟩))

/-! ## The reports together -/

/-- The last lines, `left`, belong to a block that never ends: none is open before them, and from
the first of them on one always is. -/
structure IsLeftOpen (lines left : List Text) : Prop where
  ends : ∃ closed, closed ++ left = lines ∧ OpenBlock.afterLines none closed = none
  opens : ∀ started, started <+: left → started ≠ [] → OpenBlock.afterLines none started ≠ none

theorem isLeftOpen_tailLines (lines : List Text) :
    IsLeftOpen lines (Layout.ofLines lines).tailLines where
  ends := by
    refine ⟨_, Layout.lines_ofLines lines, ?_⟩
    have hclosed := Layout.ofLines_append (Layout.isUnit_ofLines lines) []
    rw [List.append_nil] at hclosed
    rw [← Layout.map_snd_tail_ofLines, hclosed]
    rfl
  opens := fun _ => Layout.afterLines_ne_none_of_prefix

/-- What is reported of the doomed resources of some lines, of which the last, `left`, belong to a
block that never ends. -/
structure Reports (doomed : Doomed) (lines left : List Text) (pruning : Pruning) : Prop where
  covered : ∀ line ∈ lines, ∀ r ∈ Declaration.resourcesOn line, doomed r = true →
    r ∈ pruning.removed ∨ r ∈ pruning.shared ∨ r ∈ left.flatMap Declaration.resourcesOn
  unterminated : pruning.unterminated ≠ none
    ↔ ∃ r ∈ left.flatMap Declaration.resourcesOn, doomed r = true
  block : ∀ block, pruning.unterminated = some block → OpenBlock.afterLines none lines = some block
  shared : ∀ r ∈ pruning.shared, ∃ line ∈ pruning.lines, r ∈ Declaration.resourcesOn line
  removed : ∀ r ∈ pruning.removed,
    ∃ line, (line, false) ∈ marked doomed lines ∧ r ∈ Declaration.resourcesOn line
  gone : pruning.unterminated = none → ∀ r ∈ pruning.removed, r ∉ pruning.shared →
    ∀ line ∈ pruning.lines, r ∉ Declaration.resourcesOn line

/-- **The reports are complete and exact.** A doomed resource that is declared is taken out, shared,
or declared in the group still open at the end, whose block is then reported; and what is reported
is so. -/
theorem reports_ofLines (doomed : Doomed) (lines : List Text) :
    ∃ left, IsLeftOpen lines left ∧ Reports doomed lines left (ofLines doomed lines)
      ∧ (marked doomed lines).map Prod.fst = lines
      ∧ (ofLines doomed lines).lines = ((marked doomed lines).filter Prod.snd).map Prod.fst := by
  refine ⟨_, isLeftOpen_tailLines lines, ?_, map_fst_marked doomed lines, lines_eq doomed lines⟩
  constructor
  case covered => exact fun line hline r hr hdoomed => reported_of_mem_resourcesOn hline hr hdoomed
  case unterminated => exact unterminated_ne_none_iff
  case block => exact fun block hblock => afterLines_of_unterminated hblock
  case shared => exact fun r hr => exists_mem_lines_of_mem_shared hr
  case removed => exact fun r hr => exists_mem_marked_of_mem_removed hr
  case gone =>
    intro hended r hremoved hshared line hline hr
    refine hshared ((mem_resourcesOn_lines_iff hended (doomed_of_mem_removed hremoved)).mp ?_)
    exact List.mem_flatMap.mpr ⟨line, hline, hr⟩

end Pruning

end ResourcePruner
