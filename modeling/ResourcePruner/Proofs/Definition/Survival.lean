import Mathlib.Algebra.Ring.Nat
import ResourcePruner.Definition.Pruning

/-!
# What pruning a definition file keeps

`Pruning.marked` says of every line of a definition file whether it stays. The marking is read off
the layout, so it knows about groups and open blocks, while its statements are about single lines:
the lines that stay are the result, the others are counted, and a line that goes declares nothing
but doomed resources. A surviving resource therefore keeps all of its lines
(`marked_keeps_survivors`).

The step is `declared_ofLinesAfter`: whatever block is carried over, the resources entered for a
group are exactly those declared on its lines, so that no declaration of a group escapes the test
that decides whether the group goes.
-/

namespace ResourcePruner

/-! ## Groups know what their lines declare -/

/-- The resources entered for a group are those declared on its lines, in order. -/
def Group.IsExact (group : Group) : Prop :=
  group.declared = group.lines.flatMap Declaration.resourcesOn

theorem Group.IsExact.add {group : Group} (hexact : group.IsExact) (line : Text) :
    (group.add line).IsExact := by
  simp only [Group.IsExact] at hexact
  simp [Group.IsExact, Group.add, hexact]

theorem Group.isExact_empty : Group.IsExact ⟨[], []⟩ := rfl

/-- Every group of a layout, the one left open at the end included, is exact when the group held
before is. -/
theorem Layout.isExact_ofLinesAfter (held : Option (Group × OpenBlock)) (text : List Text)
    (hheld : ∀ g b, held = some (g, b) → g.IsExact) :
    (∀ g, Part.group g ∈ (ofLinesAfter held text).parts → g.IsExact)
      ∧ ∀ g b, (ofLinesAfter held text).tail = some (g, b) → g.IsExact := by
  have hgrown : ∀ (held : Option (Group × OpenBlock)) (line : Text),
      (∀ g b, held = some (g, b) → g.IsExact) →
        (((held.map Prod.fst).getD ⟨[], []⟩).add line).IsExact := by
    intro held line hheld
    cases held with
    | none => exact Group.isExact_empty.add line
    | some entry => exact (hheld entry.1 entry.2 rfl).add line
  fun_induction ofLinesAfter held text with
  | case1 held => exact ⟨fun g hg => by simp at hg, hheld⟩
  | case2 held line rest _ ih =>
      obtain ⟨hparts, htail⟩ := ih (fun g b h => by cases h)
      refine ⟨fun g hg => hparts g ?_, htail⟩
      simpa [cons] using hg
  | case3 held line rest _ group block _ ih =>
      refine ih fun g b h => ?_
      obtain ⟨rfl, -⟩ := Prod.mk.injEq .. |>.mp (Option.some.inj h)
      exact hgrown held line hheld
  | case4 held line rest _ group _ ih =>
      obtain ⟨hparts, htail⟩ := ih (fun g b h => by cases h)
      refine ⟨fun g hg => ?_, htail⟩
      rcases List.mem_cons.mp hg with h | h
      · obtain rfl := Part.group.inj h
        exact hgrown held line hheld
      · exact hparts g h

theorem Layout.isExact_ofLines {text : List Text} {g : Group}
    (hg : Part.group g ∈ (ofLines text).parts) : g.IsExact :=
  (isExact_ofLinesAfter none text fun _ _ h => by cases h).1 g hg

theorem Layout.resourcesOn_filler_ofLinesAfter (held : Option (Group × OpenBlock))
    (text : List Text) :
    ∀ line, Part.filler line ∈ (ofLinesAfter held text).parts →
      Declaration.resourcesOn line = [] := by
  fun_induction ofLinesAfter held text with
  | case1 held => intro line hline; cases hline
  | case2 held line rest hfresh ih =>
      intro line' hline
      rcases List.mem_cons.mp hline with h | h
      · obtain rfl := Part.filler.inj h
        rw [Bool.and_eq_true, List.isEmpty_iff] at hfresh
        rw [Declaration.resourcesOn, hfresh.2, List.map_nil]
      · exact ih line' h
  | case3 held line rest _ group block _ ih => exact ih
  | case4 held line rest _ group _ ih =>
      intro line' hline
      rcases List.mem_cons.mp hline with h | h
      · cases h
      · exact ih line' h

/-! ## The marking -/

/-- The lines of a part, each with whether it stays. -/
def Part.marked (doomed : Doomed) (part : Part) : List (Text × Bool) :=
  part.lines.map fun line =>
    (line, match part with
      | filler _ => true
      | group g => !g.isDropped doomed)

/-- The lines of a definition file, each with whether it stays. -/
def Pruning.marked (doomed : Doomed) (lines : List Text) : List (Text × Bool) :=
  (Layout.ofLines lines).parts.flatMap (Part.marked doomed)
    ++ (Layout.ofLines lines).tailLines.map fun line => (line, true)

theorem Part.map_fst_marked (doomed : Doomed) (part : Part) :
    (part.marked doomed).map Prod.fst = part.lines := by
  simp [marked, Function.comp_def]

theorem Part.kept_eq (doomed : Doomed) (part : Part) :
    part.kept doomed = ((part.marked doomed).filter Prod.snd).map Prod.fst := by
  cases part with
  | filler line => simp [kept, marked, lines]
  | group g =>
      cases hdrop : g.isDropped doomed <;>
        simp [kept, marked, lines, hdrop, List.filter_map, Function.comp_def,
          List.filter_eq_self.mpr]

theorem Part.droppedCount_eq (doomed : Doomed) (part : Part) :
    part.droppedCount doomed = (part.marked doomed).countP fun mark => !mark.2 := by
  cases part with
  | filler line => simp [droppedCount, marked, lines]
  | group g =>
      cases hdrop : g.isDropped doomed <;>
        simp [droppedCount, marked, lines, hdrop, List.countP_map, Function.comp_def]

theorem Pruning.map_fst_marked (doomed : Doomed) (lines : List Text) :
    (marked doomed lines).map Prod.fst = lines := by
  have hparts : ((Layout.ofLines lines).parts.flatMap (Part.marked doomed)).map Prod.fst
      = (Layout.ofLines lines).parts.flatMap Part.lines := by
    rw [List.map_flatMap]
    exact congrArg (List.flatMap · _) (funext fun part => part.map_fst_marked doomed)
  calc (marked doomed lines).map Prod.fst
      = (Layout.ofLines lines).parts.flatMap Part.lines ++ (Layout.ofLines lines).tailLines := by
        simp [marked, hparts, Function.comp_def]
    _ = lines := Layout.lines_ofLines lines

theorem Pruning.lines_eq (doomed : Doomed) (lines : List Text) :
    (ofLines doomed lines).lines = ((marked doomed lines).filter Prod.snd).map Prod.fst := by
  simp only [ofLines, ofLayout, marked, List.filter_append, List.map_append, List.filter_flatMap,
    List.map_flatMap]
  congr 1
  · exact congrArg (List.flatMap · _) (funext fun part => part.kept_eq doomed)
  · simp [Function.comp_def, List.filter_eq_self.mpr]

theorem Pruning.droppedCount_eq (doomed : Doomed) (lines : List Text) :
    (ofLines doomed lines).droppedCount = (marked doomed lines).countP fun mark => !mark.2 := by
  have hparts : ∀ parts : List Part,
      (parts.map (Part.droppedCount doomed)).sum
        = (parts.flatMap (Part.marked doomed)).countP fun mark => !mark.2 := by
    intro parts
    induction parts with
    | nil => rfl
    | cons part rest ih =>
        rw [List.map_cons, List.sum_cons, List.flatMap_cons, List.countP_append, ih,
          Part.droppedCount_eq]
  simp only [ofLines, ofLayout, marked, List.countP_append, hparts]
  simp [List.countP_map, Function.comp_def]

/-! ## What goes, and what therefore stays -/

theorem Group.doomed_of_isDropped {group : Group} {doomed : Doomed} (hexact : group.IsExact)
    (hdrop : group.isDropped doomed = true) {line : Text} (hline : line ∈ group.lines)
    {r : Resource} (hr : r ∈ Declaration.resourcesOn line) : doomed r = true := by
  simp only [isDropped, Bool.and_eq_true] at hdrop
  refine List.all_eq_true.mp hdrop.2 r ?_
  rw [hexact]
  exact List.mem_flatMap.mpr ⟨line, hline, hr⟩

/-- A group that is dropped declares something. -/
theorem Group.exists_doomed_of_isDropped {group : Group} {doomed : Doomed}
    (hdrop : group.isDropped doomed = true) : ∃ r ∈ group.declared, doomed r = true := by
  rw [isDropped, Bool.and_eq_true, Bool.not_eq_true', List.isEmpty_eq_false_iff] at hdrop
  obtain ⟨r, hr⟩ := List.exists_mem_of_ne_nil _ hdrop.1
  exact ⟨r, hr, List.all_eq_true.mp hdrop.2 r hr⟩

/-- A line that goes is one of a group that is dropped. -/
theorem Pruning.exists_group_of_mem_marked {doomed : Doomed} {lines : List Text} {line : Text}
    (hline : (line, false) ∈ marked doomed lines) :
    ∃ g, Part.group g ∈ (Layout.ofLines lines).parts ∧ g.isDropped doomed = true
      ∧ line ∈ g.lines := by
  rcases List.mem_append.mp hline with h | h
  · obtain ⟨part, hpart, hmark⟩ := List.mem_flatMap.mp h
    obtain ⟨line', hline', heq⟩ := List.mem_map.mp hmark
    obtain ⟨rfl, hstays⟩ := Prod.mk.injEq .. |>.mp heq
    cases part with
    | filler _ => cases hstays
    | group g => exact ⟨g, hpart, by simpa using hstays, hline'⟩
  · obtain ⟨_, _, heq⟩ := List.mem_map.mp h
    cases congrArg Prod.snd heq

/-- The lines of a group that is dropped go. -/
theorem Pruning.mem_marked_of_isDropped {doomed : Doomed} {lines : List Text} {line : Text}
    {g : Group}
    (hg : Part.group g ∈ (Layout.ofLines lines).parts) (hdrop : g.isDropped doomed = true)
    (hline : line ∈ g.lines) : (line, false) ∈ marked doomed lines :=
  List.mem_append_left _ (List.mem_flatMap.mpr
    ⟨_, hg, List.mem_map.mpr ⟨line, hline, congrArg (line, !·) hdrop⟩⟩)

/-- Lines go exactly when a group is dropped. -/
theorem Pruning.droppedCount_pos_iff {doomed : Doomed} {lines : List Text} :
    0 < (ofLines doomed lines).droppedCount
      ↔ ∃ g, Part.group g ∈ (Layout.ofLines lines).parts ∧ g.isDropped doomed = true := by
  rw [droppedCount_eq, List.countP_pos_iff]
  constructor
  · rintro ⟨⟨line, stays⟩, hmark, hgone⟩
    obtain rfl : stays = false := by simpa using hgone
    obtain ⟨g, hg, hdrop, -⟩ := exists_group_of_mem_marked hmark
    exact ⟨g, hg, hdrop⟩
  · rintro ⟨g, hg, hdrop⟩
    obtain ⟨r, hr, -⟩ := Group.exists_doomed_of_isDropped hdrop
    rw [Layout.isExact_ofLines hg] at hr
    obtain ⟨line, hline, -⟩ := List.mem_flatMap.mp hr
    exact ⟨(line, false), mem_marked_of_isDropped hg hdrop hline, rfl⟩

/-- A line that goes declares doomed resources only. -/
theorem Pruning.doomed_of_mem_marked {doomed : Doomed} {lines : List Text} {line : Text}
    (hline : (line, false) ∈ marked doomed lines) :
    ∀ r ∈ Declaration.resourcesOn line, doomed r = true := by
  obtain ⟨g, hg, hdrop, hmem⟩ := exists_group_of_mem_marked hline
  exact fun r hr => Group.doomed_of_isDropped (Layout.isExact_ofLines hg) hdrop hmem hr

/-- The lines that stay are the given ones in order, with some of them left out. -/
theorem Pruning.lines_sublist (doomed : Doomed) (lines : List Text) :
    (ofLines doomed lines).lines.Sublist lines := by
  have h := (List.filter_sublist (p := Prod.snd) (l := marked doomed lines)).map Prod.fst
  rwa [← lines_eq, map_fst_marked] at h

theorem Pruning.length_lines_add_droppedCount (doomed : Doomed) (lines : List Text) :
    (ofLines doomed lines).lines.length + (ofLines doomed lines).droppedCount = lines.length := by
  have hlength : (marked doomed lines).length = lines.length := by
    rw [← List.length_map Prod.fst, map_fst_marked]
  rw [lines_eq, droppedCount_eq, List.length_map, ← List.countP_eq_length_filter, ← hlength,
    List.length_eq_countP_add_countP Prod.snd]
  congr 1
  exact List.countP_congr fun mark _ => by simp

/-- Lines chosen by a condition that no line that goes meets are the same before and after. -/
theorem Pruning.filter_lines_eq {doomed : Doomed} {lines : List Text} {p : Text → Bool}
    (hp : ∀ line, (line, false) ∈ marked doomed lines → p line = false) :
    (ofLines doomed lines).lines.filter p = lines.filter p := by
  have hmarks : ((marked doomed lines).filter Prod.snd).filter (p ∘ Prod.fst)
      = (marked doomed lines).filter (p ∘ Prod.fst) := by
    rw [List.filter_filter]
    refine List.filter_congr fun mark hmark => ?_
    obtain ⟨line, stays⟩ := mark
    cases stays with
    | true => simp
    | false => simp [hp line hmark]
  calc (ofLines doomed lines).lines.filter p
      = (((marked doomed lines).filter Prod.snd).filter (p ∘ Prod.fst)).map Prod.fst := by
        rw [lines_eq, List.filter_map]
    _ = ((marked doomed lines).map Prod.fst).filter p := by rw [hmarks, List.filter_map]
    _ = lines.filter p := by rw [map_fst_marked]

/-- In a file without a doomed declaration that never ends, the doomed resources declared on the
lines that stay are those reported as shared. -/
theorem Pruning.mem_resourcesOn_lines_iff {doomed : Doomed} {lines : List Text} {r : Resource}
    (hended : (ofLines doomed lines).unterminated = none) (hr : doomed r = true) :
    r ∈ (ofLines doomed lines).lines.flatMap Declaration.resourcesOn
      ↔ r ∈ (ofLines doomed lines).shared := by
  have hexact := Layout.isExact_ofLinesAfter none lines fun _ _ h => nomatch h
  have htail : r ∉ (Layout.ofLines lines).tailLines.flatMap Declaration.resourcesOn := by
    intro hdeclared
    cases htail : (Layout.ofLines lines).tail with
    | none => simp [Layout.tailLines, htail] at hdeclared
    | some tail =>
        obtain ⟨g, block⟩ := tail
        have hmem : r ∈ g.declared := by
          rw [hexact.2 g block htail]
          simpa only [Layout.tailLines, htail, Option.map_some, Option.getD_some] using hdeclared
        simp only [ofLines, ofLayout, doomedTail, htail, Option.map_eq_none_iff,
          Option.filter_eq_none_iff, Option.some.injEq, forall_eq', Bool.not_eq_true,
          List.any_eq_false] at hended
        rw [hended r hmem] at hr
        cases hr
  have hpart : ∀ part ∈ (Layout.ofLines lines).parts,
      r ∈ (part.kept doomed).flatMap Declaration.resourcesOn ↔ r ∈ part.shared doomed := by
    intro part hpart
    cases part with
    | filler line =>
        simp [Part.kept, Part.shared,
          Layout.resourcesOn_filler_ofLinesAfter none lines line hpart]
    | group g =>
        have hlines : g.lines.flatMap Declaration.resourcesOn = g.declared :=
          (hexact.1 g hpart).symm
        cases hdrop : g.isDropped doomed <;>
          simp [Part.kept, Part.shared, hdrop, hlines, Group.doomedResources, hr]
  rw [ofLines, ofLayout, List.flatMap_append, List.mem_append, or_iff_left htail,
    List.mem_eraseDups, List.flatMap_assoc, List.mem_flatMap, List.mem_flatMap]
  exact exists_congr fun part => and_congr_right fun h => hpart part h

theorem Pruning.doomed_of_mem_shared {doomed : Doomed} {lines : List Text} {r : Resource}
    (hr : r ∈ (ofLines doomed lines).shared) : doomed r = true := by
  rw [ofLines, ofLayout, List.mem_eraseDups] at hr
  obtain ⟨part, -, hr⟩ := List.mem_flatMap.mp hr
  cases part with
  | filler line => cases hr
  | group g =>
      rw [Part.shared] at hr
      split at hr
      · cases hr
      · exact (List.mem_filter.mp hr).2

/-- **Survivors keep their lines.** The result is the input in order with some lines left out, and
the count is theirs; a line left out declares nothing but doomed resources, so the lines that
declare a surviving resource are the same before and after. -/
theorem Pruning.marked_keeps_survivors (doomed : Doomed) (lines : List Text) :
    (marked doomed lines).map Prod.fst = lines
      ∧ (ofLines doomed lines).lines = ((marked doomed lines).filter Prod.snd).map Prod.fst
      ∧ (ofLines doomed lines).lines.Sublist lines
      ∧ (ofLines doomed lines).droppedCount = (marked doomed lines).countP (fun mark => !mark.2)
      ∧ (ofLines doomed lines).lines.length + (ofLines doomed lines).droppedCount = lines.length
      ∧ (∀ line, (line, false) ∈ marked doomed lines →
          ∀ r ∈ Declaration.resourcesOn line, doomed r = true)
      ∧ ∀ r, doomed r = false →
          (ofLines doomed lines).lines.filter (fun line => r ∈ Declaration.resourcesOn line)
            = lines.filter (fun line => r ∈ Declaration.resourcesOn line) := by
  refine ⟨map_fst_marked doomed lines, lines_eq doomed lines, lines_sublist doomed lines,
    droppedCount_eq doomed lines, length_lines_add_droppedCount doomed lines,
    fun line hline => doomed_of_mem_marked hline, fun r hr => ?_⟩
  refine filter_lines_eq fun line hline => decide_eq_false fun hdeclared => ?_
  rw [doomed_of_mem_marked hline r hdeclared] at hr
  cases hr

end ResourcePruner
