import ResourcePruner.Proofs.Definition.Again
import ResourcePruner.Proofs.Definition.WellFormed

/-!
# Declarations that end on their line

Whether a declaration ends on its line is told twice. `Declaration.closesOn` looks at one
declaration and searches for its closing tag from the `>` of the opening tag on. `OpenBlock.after`
walks over the whole line, searches from behind that `>`, and leaves out the declarations that stand
inside others.

The two agree (`Declaration.endsAlike`). Everything rests on `OpenBlock.seekEnd_ofDeclaration`,
which says what one step of the walk leaves of a declaration; the walk itself only chooses the
declarations that it looks at.
-/

namespace ResourcePruner

/-! ## The end of a tag -/

/-- What is sought stands where it is found. -/
theorem Text.isPrefix_of_indexFrom? {sought text : Text} {start n : Nat}
    (hfound : indexFrom? sought text start = some n) : sought <+: text.drop n := by
  unfold indexFrom? at hfound
  split at hfound
  · obtain ⟨m, hm, rfl⟩ := Option.map_eq_some_iff.mp hfound
    have hbegins := (firstSuffix?_eq_some_iff.mp hm).2.1
    rwa [List.drop_drop, List.isPrefixOf_iff_prefix] at hbegins
  · cases hfound

/-- A `>` is found on a line from a place on unless none stands there or behind. -/
theorem Text.indexFrom?_tagEnd_eq_none_iff {line : Text} {start : Nat}
    (hstart : start ≤ line.length) :
    indexFrom? ">" line start = none ↔ Symbol.char '>' ∉ line.drop start := by
  constructor
  · intro hnone hmem
    obtain ⟨before, after, hsplit⟩ := List.append_of_mem hmem
    have hoccurs : (">" : Text) <:+: line.drop start :=
      ⟨before, after, by rw [hsplit, List.append_assoc]; rfl⟩
    obtain ⟨n, hn⟩ := exists_indexFrom?_eq hstart hoccurs
    rw [hnone] at hn
    cases hn
  · exact fun hmem => indexFrom?_eq_none fun hfound =>
      hmem (hfound.subset (List.mem_singleton_self _))

/-- A closing tag does not begin with a `>`, so that it makes no difference whether it is sought
from the end of a tag on or from behind it. -/
theorem Category.isSome_indexFrom?_closingTag (category : Category) {line : Text}
    {start tagEnd : Nat}
    (htagEnd : Text.indexFrom? ">" line start = some tagEnd) :
    (Text.indexFrom? category.closingTag line (tagEnd + 1)).isSome
      = (Text.indexFrom? category.closingTag line tagEnd).isSome := by
  obtain ⟨rest, hrest⟩ := Text.isPrefix_of_indexFrom? htagEnd
  have hhere : line.drop tagEnd = .char '>' :: rest := hrest.symm
  have hbehind : line.drop (tagEnd + 1) = rest := by
    rw [← List.drop_drop, hhere, List.drop_succ_cons, List.drop_zero]
  have hlength : tagEnd < line.length := by
    refine Nat.lt_of_not_le fun hle => ?_
    rw [List.drop_eq_nil_of_le hle] at hhere
    cases hhere
  have hno : ¬ category.closingTag <+: .char '>' :: rest := by
    cases category <;> exact fun hbegins => absurd (List.cons_prefix_cons.mp hbegins).1 (by decide)
  by_cases hoccurs : category.closingTag <:+: rest
  · obtain ⟨n, hn⟩ := Text.exists_indexFrom?_eq hlength (hbehind ▸ hoccurs)
    obtain ⟨m, hm⟩ := Text.exists_indexFrom?_eq (Nat.le_of_lt hlength)
      (hhere ▸ List.infix_cons hoccurs)
    rw [hn, hm]
    rfl
  · have hnowhere : ¬ category.closingTag <:+: .char '>' :: rest := fun h =>
      (List.infix_cons_iff.mp h).elim hno hoccurs
    rw [Text.indexFrom?_eq_none (hbehind ▸ hoccurs), Text.indexFrom?_eq_none (hhere ▸ hnowhere)]

/-! ## What the walk leaves of a line -/

namespace OpenBlock

/-- The block that a declaration leaves open behind its line, if it does not end there. -/
def leftBy (line : Text) (d : Declaration) : OpenBlock :=
  { ofDeclaration d with inTag := decide (Symbol.char '>' ∉ line.drop d.valueEnd) }

/-- One step of the walk, taken right behind the name of a declaration. -/
theorem seekEnd_ofDeclaration {line : Text} {d : Declaration} (hend : d.valueEnd ≤ line.length) :
    (seekEnd line (ofDeclaration d) d.valueEnd).1
      = if d.closesOn line then none else some (leftBy line d) := by
  have hinTag : (ofDeclaration d).inTag = true := rfl
  rw [seekEnd, if_pos hinTag, Declaration.closesOn]
  cases htagEnd : Text.indexFrom? ">" line d.valueEnd with
  | none =>
      have hno := (Text.indexFrom?_tagEnd_eq_none_iff hend).mp htagEnd
      simp [leftBy, hno, ofDeclaration]
  | some tagEnd =>
      have hmem : Symbol.char '>' ∈ line.drop d.valueEnd := by
        refine Decidable.of_not_not fun hno => ?_
        rw [(Text.indexFrom?_tagEnd_eq_none_iff hend).mpr hno] at htagEnd
        cases htagEnd
      have hsame := d.resource.category.isSome_indexFrom?_closingTag htagEnd
      cases hself : Declaration.isSelfClosing line tagEnd with
      | true => simp [hself]
      | false =>
          simp only [hself, Bool.false_eq_true, if_false, Bool.false_or, ← hsame, seekClosingTag,
            ofDeclaration]
          cases Text.indexFrom? d.resource.category.closingTag line (tagEnd + 1) with
          | none => simp [leftBy, hmem, ofDeclaration]
          | some close => simp

/-- The walk leaves open what one of the declarations that it looks at leaves open; `pending` is the
one taken up last. -/
theorem exists_leftBy_of_afterFrom {line : Text} {block : OpenBlock} (pending : Option Declaration)
    (cursor : Nat) (found : List Declaration)
    (hends : ∀ d ∈ pending.toList ++ found, d.valueEnd ≤ line.length)
    (hblock : afterFrom line (pending.map ofDeclaration)
      (pending.elim cursor Declaration.valueEnd) found = some block) :
    ∃ d ∈ pending.toList ++ found, d.closesOn line = false ∧ block = leftBy line d := by
  induction found generalizing pending cursor with
  | nil =>
      cases pending with
      | none => cases hblock
      | some d =>
          have hstep := seekEnd_ofDeclaration (hends d (by simp))
          simp only [Option.map_some, Option.elim_some, afterFrom, Option.bind_some] at hblock
          rw [hblock] at hstep
          cases hcloses : d.closesOn line with
          | true =>
              rw [hcloses] at hstep
              cases hstep
          | false =>
              rw [hcloses] at hstep
              exact ⟨d, by simp, hcloses, Option.some.inj hstep⟩
  | cons d others ih =>
      have hothers : ∀ e ∈ (some d).toList ++ others, e.valueEnd ≤ line.length :=
        fun e he => hends e (List.mem_append_right _ he)
      cases pending with
      | none =>
          simp only [Option.map_none, Option.elim_none, afterFrom] at hblock
          split at hblock
          · obtain ⟨e, he, hleft⟩ := ih none cursor
              (fun e he => hends e (List.mem_cons_of_mem _ he)) hblock
            exact ⟨e, List.mem_cons_of_mem _ he, hleft⟩
          · exact ih (some d) cursor hothers hblock
      | some e =>
          have he : (seekEnd line (ofDeclaration e) e.valueEnd).1
              = if e.closesOn line then none else some (leftBy line e) :=
            seekEnd_ofDeclaration (hends e (by simp))
          simp only [Option.map_some, Option.elim_some, afterFrom] at hblock
          generalize seekEnd line (ofDeclaration e) e.valueEnd = reached at he hblock
          obtain ⟨left, position⟩ := reached
          cases hcloses : e.closesOn line with
          | false =>
              obtain rfl : left = some (leftBy line e) := by simpa [hcloses] using he
              exact ⟨e, by simp, hcloses, (Option.some.inj hblock).symm⟩
          | true =>
              obtain rfl : left = none := by simpa [hcloses] using he
              simp only at hblock
              split at hblock
              · obtain ⟨f, hf, hleft⟩ := ih none position
                  (fun f hf => hothers f (List.mem_cons_of_mem d hf)) hblock
                exact ⟨f, List.mem_cons_of_mem e (List.mem_cons_of_mem d hf), hleft⟩
              · obtain ⟨f, hf, hleft⟩ := ih (some d) position hothers hblock
                exact ⟨f, List.mem_cons_of_mem e hf, hleft⟩

end OpenBlock

namespace Declaration

/-- The two accounts of what ends on a line agree about it. -/
structure EndsAlike (line : Text) : Prop where
  /-- Each declaration by itself. -/
  single : ∀ d ∈ onLine line, d.closesOn line = true ↔ OpenBlock.after line [d] none = none
  /-- Where all declarations end, nothing is left open. -/
  closed : (∀ d ∈ onLine line, d.closesOn line = true) →
    OpenBlock.after line (onLine line) none = none
  /-- What is left open is a declaration that does not end. -/
  left : ∀ block, OpenBlock.after line (onLine line) none = some block →
    ∃ d ∈ onLine line, d.closesOn line = false ∧ block.IsOf d.resource
      ∧ (block.inTag = true ↔ Symbol.char '>' ∉ line.drop d.valueEnd)

/-- The two accounts of what ends on a line agree about every line. -/
theorem endsAlike (line : Text) : EndsAlike line := by
  have hends : ∀ d ∈ onLine line, d.valueEnd ≤ line.length := fun d hd =>
    Nat.le_of_lt (isOn_of_mem_onLine hd).2.valueEnd_lt.2
  have hleft : ∀ block, OpenBlock.after line (onLine line) none = some block →
      ∃ d ∈ onLine line, d.closesOn line = false ∧ block = OpenBlock.leftBy line d :=
    fun block => OpenBlock.exists_leftBy_of_afterFrom none 0 (onLine line) hends
  refine ⟨fun d hd => ?_, fun hclosed => ?_, fun block hblock => ?_⟩
  · have halone : OpenBlock.after line [d] none
        = (OpenBlock.seekEnd line (OpenBlock.ofDeclaration d) d.valueEnd).1 := rfl
    rw [halone, OpenBlock.seekEnd_ofDeclaration (hends d hd)]
    cases d.closesOn line <;> simp
  · rw [Option.eq_none_iff_forall_ne_some]
    intro block hblock
    obtain ⟨d, hd, hopen, -⟩ := hleft block hblock
    exact absurd (hclosed d hd) (by rw [hopen]; exact Bool.false_ne_true)
  · obtain ⟨d, hd, hopen, rfl⟩ := hleft block hblock
    exact ⟨d, hd, hopen, OpenBlock.isOf_ofDeclaration d, decide_eq_true_iff⟩

end Declaration

end ResourcePruner
