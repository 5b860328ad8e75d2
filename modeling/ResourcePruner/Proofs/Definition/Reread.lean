import ResourcePruner.Index.Build
import ResourcePruner.Proofs.Definition.Survival
import ResourcePruner.Proofs.Text.Lines
import ResourcePruner.Proofs.Declarations
import ResourcePruner.Proofs.Utf8

/-!
# Reading a pruned file again

A definition file that has been pruned is read again in the next round, cut into lines anew. What it
declares then are the declarations on the lines that stayed (`Prunes.declaredIn_eq`), the lines it
is searched by were all there before (`Prunes.searchedLines_subset`), and round after round, the
lines of a resource that is never doomed stay as they were in the first place (`Rewritten.prune`).
-/

namespace ResourcePruner

open Index (searchedLines declaredIn)

/-! ## Lines left out -/

/-- Lines some of which are left out, none of them declaring the resource. -/
inductive Trims (r : Resource) : (lines kept : List Text) → Prop
  | nil : Trims r [] []
  | keep (line : Text) {lines kept : List Text} (hrest : Trims r lines kept) :
      Trims r (line :: lines) (line :: kept)
  | drop {line : Text} (hline : r ∉ Declaration.resourcesOn line) {lines kept : List Text}
      (hrest : Trims r lines kept) : Trims r (line :: lines) kept

namespace Trims

variable {r : Resource}

theorem trans {first second third : List Text} (hfirst : Trims r first second)
    (hsecond : Trims r second third) : Trims r first third := by
  induction hfirst generalizing third with
  | nil => exact hsecond
  | keep line _ ih =>
      cases hsecond with
      | keep _ hrest => exact .keep line (ih hrest)
      | drop hline hrest => exact .drop hline (ih hrest)
  | drop hline _ ih => exact .drop hline (ih hsecond)

theorem sublist {lines kept : List Text} (htrims : Trims r lines kept) : kept.Sublist lines := by
  induction htrims with
  | nil => exact .slnil
  | keep line _ ih => exact .cons_cons line ih
  | drop _ _ ih => exact .cons _ ih

theorem of_marks {marks : List (Text × Bool)}
    (hmarks : ∀ line, (line, false) ∈ marks → r ∉ Declaration.resourcesOn line) :
    Trims r (marks.map Prod.fst) ((marks.filter Prod.snd).map Prod.fst) := by
  induction marks with
  | nil => exact .nil
  | cons mark rest ih =>
      have hrest := ih fun line hline => hmarks line (List.mem_cons_of_mem _ hline)
      obtain ⟨line, stays⟩ := mark
      cases stays with
      | true => exact .keep line hrest
      | false => exact .drop (hmarks line List.mem_cons_self) hrest

/-- Pruning leaves out no line of a resource that is not doomed. -/
theorem of_pruning {doomed : Doomed} (hr : doomed r = false) (lines : List Text) :
    Trims r lines (Pruning.ofLines doomed lines).lines := by
  have hmarks : Trims r ((Pruning.marked doomed lines).map Prod.fst)
      (((Pruning.marked doomed lines).filter Prod.snd).map Prod.fst) :=
    of_marks fun line hline hdeclared => by
      rw [Pruning.doomed_of_mem_marked hline r hdeclared] at hr
      cases hr
  rwa [Pruning.map_fst_marked, ← Pruning.lines_eq] at hmarks

/-- What is left out of regrouped lines could have been left out before. -/
theorem of_regroups {lines again kept : List Text} (hregroups : Text.Regroups lines again)
    (htrims : Trims r again kept) :
    ∃ kept', Trims r lines kept' ∧ kept'.flatten = kept.flatten := by
  induction hregroups generalizing kept with
  | nil => exact ⟨kept, htrims, rfl⟩
  | keep line _ ih =>
      cases htrims with
      | keep _ hrest =>
          obtain ⟨kept', htrims', heq⟩ := ih hrest
          exact ⟨line :: kept', .keep line htrims', by simp [heq]⟩
      | drop hline hrest =>
          obtain ⟨kept', htrims', heq⟩ := ih hrest
          exact ⟨kept', .drop hline htrims', heq⟩
  | @join body _ _ _ _ ih =>
      cases htrims with
      | keep _ hrest =>
          obtain ⟨kept', htrims', heq⟩ := ih hrest
          exact ⟨_ :: _ :: kept', .keep _ (.keep _ htrims'), by simp [heq]⟩
      | drop hline hrest =>
          obtain ⟨kept', htrims', heq⟩ := ih hrest
          refine ⟨kept', .drop ?_ (.drop ?_ htrims'), heq⟩
          · rw [Declaration.resourcesOn_append (by decide)] at hline ⊢
            exact hline
          · exact fun h => nomatch h

end Trims

theorem Text.Regroups.flatMap_resourcesOn {lines again : List Text}
    (hregroups : Text.Regroups lines again) :
    again.flatMap Declaration.resourcesOn = lines.flatMap Declaration.resourcesOn := by
  induction hregroups with
  | nil => rfl
  | keep line _ ih => rw [List.flatMap_cons, List.flatMap_cons, ih]
  | @join body _ _ _ _ ih =>
      rw [List.flatMap_cons, List.flatMap_cons, List.flatMap_cons, ih,
        Declaration.resourcesOn_append (by decide), Declaration.resourcesOn_append (by decide)]
      rfl

/-! ## What a search reads -/

/-- The lines of bytes that spell a text are its lines, without terminators. -/
theorem searchedLines_of_decode? {bytes : Bytes} {text : Text}
    (hdecode : Utf8.decode? bytes = .ok text) :
    searchedLines bytes = (Text.linesWithEnds text).map Text.chomp := by
  rw [searchedLines, Utf8.decodeReplacing_of_decode? hdecode, Text.lines_withUniformBreaks]

theorem Text.Whole.resourcesOn_chomp {lines : List Text} (hwhole : Text.Whole lines) :
    ∀ line ∈ lines, Declaration.resourcesOn line.chomp = Declaration.resourcesOn line := by
  induction hwhole with
  | nil => intro line hline; cases hline
  | @last body hbody _ =>
      refine List.forall_mem_singleton.mpr ?_
      rw [Text.chomp_body hbody]
  | @cons body ending rest hbody hending _ ih =>
      refine List.forall_mem_cons.mpr ⟨?_, ih⟩
      rcases hending with rfl | ⟨s, hbreak, rfl⟩
      · rw [Declaration.resourcesOn_append (by decide)]
        exact congrArg _ (Text.chomp_append_break hbody (by decide) _)
      · rw [Text.chomp_append_break hbody hbreak, Declaration.resourcesOn_append]
        refine fun hquote => ?_
        rw [← List.mem_singleton.mp hquote] at hbreak
        exact absurd hbreak (by decide)

/-- A search finds the declarations on the lines of the text, terminators or not. -/
theorem declaredIn_of_decode? {bytes : Bytes} {text : Text}
    (hdecode : Utf8.decode? bytes = .ok text) :
    declaredIn bytes = (Text.linesWithEnds text).flatMap Declaration.resourcesOn := by
  rw [declaredIn, searchedLines_of_decode? hdecode, List.flatMap_map]
  have hchomp := (Text.whole_linesWithEnds text).resourcesOn_chomp
  generalize Text.linesWithEnds text = lines at hchomp
  induction lines with
  | nil => rfl
  | cons line rest ih =>
      obtain ⟨hline, hrest⟩ := List.forall_mem_cons.mp hchomp
      rw [List.flatMap_cons, List.flatMap_cons, hline, ih hrest]

/-! ## One pruning -/

/-- The bytes after are those of the text before, pruned of the doomed resources. -/
def Prunes (doomed : Doomed) (before after : Bytes) : Prop :=
  ∃ text, Utf8.decode? before = .ok text
    ∧ after = Utf8.encode (Pruning.ofLines doomed (Text.linesWithEnds text)).text

/-- Lines left out of a text without halves leave none behind. -/
theorem decode?_flatten_of_sublist {bytes : Bytes} {text : Text} {kept : List Text}
    (hdecode : Utf8.decode? bytes = .ok text) (hkept : kept.Sublist (Text.linesWithEnds text)) :
    Utf8.decode? (Utf8.encode kept.flatten) = .ok kept.flatten := by
  refine Utf8.decode?_encode fun s hs => Utf8.isHalf_of_decode? hdecode s ?_
  obtain ⟨line, hline, hs⟩ := List.mem_flatten.mp hs
  rw [← Text.flatten_linesWithEnds text]
  exact List.mem_flatten.mpr ⟨line, hkept.subset hline, hs⟩

theorem decode?_pruned {doomed : Doomed} {bytes : Bytes} {text : Text}
    (hdecode : Utf8.decode? bytes = .ok text) :
    Utf8.decode? (Utf8.encode (Pruning.ofLines doomed (Text.linesWithEnds text)).text)
      = .ok (Pruning.ofLines doomed (Text.linesWithEnds text)).text :=
  decode?_flatten_of_sublist hdecode (Pruning.lines_sublist doomed _)

namespace Prunes

variable {doomed : Doomed} {before after : Bytes}

/-- No line is searched that was not there before. -/
theorem searchedLines_subset (hprunes : Prunes doomed before after) :
    searchedLines after ⊆ searchedLines before := by
  obtain ⟨text, hdecode, rfl⟩ := hprunes
  rw [searchedLines_of_decode? hdecode, searchedLines_of_decode? (decode?_pruned hdecode)]
  intro line hline
  obtain ⟨line', hline', rfl⟩ := List.mem_map.mp hline
  have hkept := Pruning.lines_sublist doomed (Text.linesWithEnds text)
  obtain ⟨line'', hline'', heq⟩ :=
    ((Text.whole_linesWithEnds text).sublist hkept).regroups.exists_chomp_eq line' hline'
  rw [heq]
  exact List.mem_map_of_mem (hkept.subset hline'')

/-- What is declared afterwards is declared on the lines that stayed. -/
theorem declaredIn_eq {text : Text} (hdecode : Utf8.decode? before = .ok text) :
    declaredIn (Utf8.encode (Pruning.ofLines doomed (Text.linesWithEnds text)).text)
      = (Pruning.ofLines doomed (Text.linesWithEnds text)).lines.flatMap
          Declaration.resourcesOn := by
  have hkept := Pruning.lines_sublist doomed (Text.linesWithEnds text)
  rw [declaredIn_of_decode? (decode?_pruned hdecode), Pruning.text]
  exact ((Text.whole_linesWithEnds text).sublist hkept).regroups.flatMap_resourcesOn

theorem declaredIn_subset (hprunes : Prunes doomed before after) :
    declaredIn after ⊆ declaredIn before := by
  intro r hr
  obtain ⟨line, hline, hr⟩ := List.mem_flatMap.mp hr
  exact List.mem_flatMap.mpr ⟨line, hprunes.searchedLines_subset hline, hr⟩

end Prunes

/-! ## Pruning after pruning -/

/-- The bytes after are those before, or their lines but for some that do not declare the
resource. -/
def Rewritten (r : Resource) (before after : Bytes) : Prop :=
  after = before ∨ ∃ text kept, Utf8.decode? before = .ok text
    ∧ Trims r (Text.linesWithEnds text) kept ∧ after = Utf8.encode kept.flatten

/-- A pruned file pruned once more, of other resources, still has all lines that the resource had
in the beginning. -/
theorem Rewritten.prune {r : Resource} {doomed : Doomed} (hr : doomed r = false)
    {first before after : Bytes} (hrewritten : Rewritten r first before)
    (hprunes : Prunes doomed before after) : Rewritten r first after := by
  obtain ⟨text, hdecode, rfl⟩ := hprunes
  rcases hrewritten with rfl | ⟨original, kept, horiginal, htrims, rfl⟩
  · exact .inr ⟨text, _, hdecode, .of_pruning hr _, rfl⟩
  · -- The text pruned is that of the lines kept so far, cut into lines anew.
    rw [decode?_flatten_of_sublist horiginal htrims.sublist] at hdecode
    cases hdecode
    have hregroups := ((Text.whole_linesWithEnds original).sublist htrims.sublist).regroups
    obtain ⟨kept', htrims', heq⟩ := Trims.of_regroups hregroups (.of_pruning hr _)
    exact .inr ⟨original, kept', horiginal, htrims.trans htrims', by rw [heq]; rfl⟩

end ResourcePruner
