import Mathlib.Data.List.Dedup
import ResourcePruner.Proofs.Reference.Search
import ResourcePruner.Proofs.Usage.Credits

/-!
# The names that references spell

A reference by type or by identifier is a stem, such as `@string/` or `R.id.`, with a name behind
it. What it spells is the longest run of identifier symbols behind the stem. A name that is made of
such symbols only is therefore referenced where it is that run, and where the run is longer or
shorter it is not (`Reference.standsAt_iff_spells`). So an occurrence of a stem names one resource
in markup, and in code one name with underscores for dots (`Reference.namesOne`).

The boundary test looks only behind the token. That it takes no longer run for a name is due to the
symbol behind the token, that it takes no shorter one to the token's own symbols.
-/

namespace ResourcePruner

namespace Reference

variable {line stem name : Text} {dialect : Dialect} {category : Category} {p : Nat}

/-! ## Stems and spellings -/

/-- What the references to a category begin with, up to the name. -/
def stems (category : Category) : Dialect → List Text
  | .markup => ["@" ++ category.referenceType ++ "/", markupIdStem]
  | .code => ["R." ++ category.referenceType ++ ".", codeIdStem]

/-- A name as it is spelled behind a stem. -/
def spelling : Dialect → Text → Text
  | .markup, name => name
  | .code, name => codeName name

theorem stem_ne_nil (hstem : stem ∈ stems category dialect) : stem ≠ [] := by
  cases dialect <;> rcases List.mem_pair.mp hstem with rfl | rfl <;>
    exact List.cons_ne_nil _ _

/-- The tokens of a resource are its spelling behind each stem, and for a layout in code the name of
its binding type. -/
theorem mem_tokens_iff {r : Resource} {token : Text} :
    token ∈ tokens r dialect ↔
      (∃ stem ∈ stems r.category dialect, token = stem ++ spelling dialect r.name)
        ∨ dialect = .code ∧ r.category = .layout ∧ token = bindingName r.name := by
  cases dialect with
  | markup => simp [tokens, stems, spelling]
  | code =>
      by_cases hlayout : r.category = .layout
      · simp [tokens, stems, spelling, hlayout, or_assoc]
      · simp [tokens, stems, spelling, hlayout]

/-! ## Runs of identifier symbols -/

/-- A name is made of identifier symbols only. -/
def IsIdentifier (name : Text) : Prop := ∀ s ∈ name, isIdentifierSymbol s = true

instance : Decidable (IsIdentifier name) := inferInstanceAs (Decidable (∀ s ∈ name, _))

theorem isIdentifier_spelling (hname : IsIdentifier name) :
    IsIdentifier (spelling dialect name) := by
  cases dialect with
  | markup => exact hname
  | code =>
      intro s hs
      obtain ⟨original, horiginal, rfl⟩ := List.mem_map.mp hs
      split
      · decide
      · exact hname original horiginal

/-- A stem at a place of a line spells what stands behind it up to the first symbol that no name
holds. -/
def Spells (line stem : Text) (p : Nat) (identifier : Text) : Prop :=
  stem <+: line.drop p ∧ (line.drop (p + stem.length)).takeWhile isIdentifierSymbol = identifier

instance {identifier : Text} : Decidable (Spells line stem p identifier) :=
  inferInstanceAs (Decidable (_ ∧ _))

/-- A name that begins a text and could not go on there is the longest run of identifier symbols. -/
theorem takeWhile_eq_iff (hname : IsIdentifier name) {rest : Text} :
    rest.takeWhile isIdentifierSymbol = name ↔ startsWithToken name rest = true := by
  rw [startsWithToken_iff]
  constructor
  · rintro rfl
    refine ⟨rest.dropWhile isIdentifierSymbol, List.takeWhile_append_dropWhile.symm, ?_⟩
    cases hback : rest.dropWhile isIdentifierSymbol with
    | nil => rfl
    | cons s back =>
        have hne : rest.dropWhile isIdentifierSymbol ≠ [] := by
          rw [hback]; exact List.cons_ne_nil _ _
        simpa [hback, endsIdentifier] using List.head_dropWhile_not isIdentifierSymbol hne
  · rintro ⟨back, rfl, hends⟩
    rw [List.takeWhile_append_of_pos hname]
    cases back with
    | nil => simp
    | cons s back =>
        have hstop : isIdentifierSymbol s = false := by simpa [endsIdentifier] using hends
        simp [hstop]

theorem startsWithToken_append {rest : Text} :
    startsWithToken (stem ++ name) rest = true ↔
      stem <+: rest ∧ startsWithToken name (rest.drop stem.length) = true := by
  simp only [startsWithToken_iff]
  constructor
  · rintro ⟨back, rfl, hends⟩
    rw [List.append_assoc]
    exact ⟨List.prefix_append _ _, back, List.drop_left, hends⟩
  · rintro ⟨⟨behind, rfl⟩, back, hback, hends⟩
    rw [List.drop_left] at hback
    exact ⟨back, by rw [hback, List.append_assoc], hends⟩

/-- An identifier is referenced at a place if, and only if, the reference there spells it: no longer
and no shorter run will do. -/
theorem standsAt_iff_spells (hstem : stem ∈ stems category dialect) (hname : IsIdentifier name) :
    StandsAt (stem ++ name) line p ↔ Spells line stem p name := by
  rw [standsAt_iff (List.append_ne_nil_of_left_ne_nil (stem_ne_nil hstem) name),
    startsWithToken_append, List.drop_drop, Spells, takeWhile_eq_iff hname]

theorem standsOn_iff_exists_standsAt {token : Text} (hne : token ≠ []) :
    StandsOn token line ↔ ∃ p, StandsAt token line p := by
  simp only [standsAt_iff hne, StandsOn, startsWithToken_iff, hne, ne_eq, not_false_eq_true,
    true_and]
  constructor
  · rintro ⟨front, back, rfl, hends⟩
    exact ⟨front.length, back, by rw [List.append_assoc, List.drop_left], hends⟩
  · rintro ⟨p, back, hback, hends⟩
    refine ⟨line.take p, back, ?_, hends⟩
    rw [List.append_assoc, ← hback, List.take_append_drop]

/-! ## What an occurrence of a stem is good for -/

/-- A line references a resource by other means than a stem and a name: in code by the binding type
of a layout, in markup by a style that inherits from it. -/
def RefersBeside (dialect : Dialect) (line : Text) (r : Resource) : Prop :=
  dialect = .code ∧ r.category = .layout ∧ StandsOn (bindingName r.name) line
    ∨ dialect = .markup ∧ r.category = .style ∧ InheritsFrom line r.name

/-- A line mentions a resource where a reference spells its name, and nowhere else by a stem. -/
theorem mentions_iff {r : Resource} (hname : IsIdentifier r.name) :
    Mentions dialect line r ↔
      ¬ (dialect = .code ∧ IsComment line)
        ∧ ((∃ stem ∈ stems r.category dialect, ∃ p, Spells line stem p (spelling dialect r.name))
          ∨ RefersBeside dialect line r) := by
  have hstands {stem : Text} (hstem : stem ∈ stems r.category dialect) :
      StandsOn (stem ++ spelling dialect r.name) line
        ↔ ∃ p, Spells line stem p (spelling dialect r.name) := by
    rw [standsOn_iff_exists_standsAt (List.append_ne_nil_of_left_ne_nil (stem_ne_nil hstem) _)]
    exact exists_congr fun p => standsAt_iff_spells hstem (isIdentifier_spelling hname)
  have htokens : (∃ token ∈ tokens r dialect, StandsOn token line) ↔
      (∃ stem ∈ stems r.category dialect, ∃ p, Spells line stem p (spelling dialect r.name))
        ∨ dialect = .code ∧ r.category = .layout ∧ StandsOn (bindingName r.name) line := by
    constructor
    · rintro ⟨token, htoken, hon⟩
      rcases mem_tokens_iff.mp htoken with ⟨stem, hstem, rfl⟩ | ⟨hcode, hlayout, rfl⟩
      · exact .inl ⟨stem, hstem, (hstands hstem).mp hon⟩
      · exact .inr ⟨hcode, hlayout, hon⟩
    · rintro (⟨stem, hstem, hspells⟩ | ⟨hcode, hlayout, hon⟩)
      · exact ⟨_, mem_tokens_iff.mpr (.inl ⟨stem, hstem, rfl⟩), (hstands hstem).mpr hspells⟩
      · exact ⟨_, mem_tokens_iff.mpr (.inr ⟨hcode, hlayout, rfl⟩), hon⟩
  rw [Mentions, htokens, RefersBeside, or_assoc]

/-- The resources of a category that a line is credited with because of the stem at a place. -/
def creditedAt (catalog : Catalog) (dialect : Dialect) (line : Text) (category : Category)
    (stem : Text) (p : Nat) : List Resource :=
  (Usage.credited dialect (Usage.tokenTable catalog dialect) line).filter fun r =>
    r.category = category ∧ IsIdentifier r.name ∧ StandsAt (stem ++ spelling dialect r.name) line p

theorem spells_of_mem_creditedAt {catalog : Catalog} {r : Resource}
    (hstem : stem ∈ stems category dialect)
    (hr : r ∈ creditedAt catalog dialect line category stem p) :
    Spells line stem p (spelling dialect r.name) := by
  obtain ⟨-, hname, hstands⟩ := of_decide_eq_true (List.mem_filter.mp hr).2
  exact (standsAt_iff_spells hstem (isIdentifier_spelling hname)).mp hstands

theorem nodup_creditedAt (catalog : Catalog) (dialect : Dialect) (line : Text) (category : Category)
    (stem : Text) (p : Nat) : (creditedAt catalog dialect line category stem p).Nodup :=
  ((Usage.pairwise_credited catalog dialect line).filter _).imp StrictOrder.ne_of_lt

/-- A list that holds nothing twice and nothing but one thing has at most one element. -/
theorem length_le_one_of_nodup {α : Type} {list : List α} (hnodup : list.Nodup)
    (hsame : ∀ a ∈ list, ∀ b ∈ list, a = b) : list.length ≤ 1 := by
  match list with
  | [] => exact Nat.zero_le 1
  | [_] => exact Nat.le_refl 1
  | a :: b :: rest =>
      have hab : a = b := hsame a (by simp) b (by simp)
      simp [hab] at hnodup

/-- A reference names one resource: two identifiers of which tokens with the same stem stand at the
same place are spelled alike, which in markup means that they are the same. So what is credited
because of a stem at a place is spelled in one way, and is one resource at most in markup. What the
reference spells is neither longer nor shorter than the credited name; and the resources that are so
spelled somewhere on the line are all that it credits by stems. -/
structure NamesOne (catalog : Catalog) (dialect : Dialect) (line : Text) : Prop where
  alike : ∀ category, ∀ stem ∈ stems category dialect, ∀ p a b, IsIdentifier a → IsIdentifier b →
    StandsAt (stem ++ spelling dialect a) line p → StandsAt (stem ++ spelling dialect b) line p →
      spelling dialect a = spelling dialect b
  oneName : ∀ category, ∀ stem ∈ stems category dialect, ∀ p,
    ((creditedAt catalog dialect line category stem p).map (spelling dialect ·.name)).dedup.length
      ≤ 1
  oneResource : dialect = .markup → ∀ category, ∀ stem ∈ stems category dialect, ∀ p,
    (creditedAt catalog dialect line category stem p).length ≤ 1
  inFull : ∀ category, ∀ stem ∈ stems category dialect, ∀ p,
    ∀ r ∈ creditedAt catalog dialect line category stem p,
      Spells line stem p (spelling dialect r.name)
  credited : ∀ r, IsIdentifier r.name →
    (r ∈ Usage.credited dialect (Usage.tokenTable catalog dialect) line ↔
      catalog.contains r = true ∧ ¬ (dialect = .code ∧ IsComment line)
        ∧ ((∃ stem ∈ stems r.category dialect, ∃ p, Spells line stem p (spelling dialect r.name))
          ∨ RefersBeside dialect line r))

/-- On every line, what the references to known resources spell names them one by one. -/
theorem namesOne (catalog : Catalog) (dialect : Dialect) (line : Text) :
    NamesOne catalog dialect line where
  alike category stem hstem p a b ha hb hastands hbstands := by
    have haspells := (standsAt_iff_spells hstem (isIdentifier_spelling ha)).mp hastands
    have hbspells := (standsAt_iff_spells hstem (isIdentifier_spelling hb)).mp hbstands
    exact haspells.2.symm.trans hbspells.2
  oneName category stem hstem p := by
    refine length_le_one_of_nodup (List.nodup_dedup _) ?_
    intro a ha b hb
    obtain ⟨r, hr, rfl⟩ := List.mem_map.mp (List.mem_dedup.mp ha)
    obtain ⟨other, hother, rfl⟩ := List.mem_map.mp (List.mem_dedup.mp hb)
    exact (spells_of_mem_creditedAt hstem hr).2.symm.trans (spells_of_mem_creditedAt hstem hother).2
  oneResource hmarkup category stem hstem p := by
    subst hmarkup
    refine length_le_one_of_nodup (nodup_creditedAt ..) fun r hr other hother => ?_
    have hname : r.name = other.name :=
      (spells_of_mem_creditedAt hstem hr).2.symm.trans (spells_of_mem_creditedAt hstem hother).2
    have hcategory := (of_decide_eq_true (List.mem_filter.mp hr).2).1
    have hcategory' := (of_decide_eq_true (List.mem_filter.mp hother).2).1
    cases r
    cases other
    exact congrArg₂ Resource.mk (hcategory.trans hcategory'.symm) hname
  inFull category stem hstem p r hr := spells_of_mem_creditedAt hstem hr
  credited r hname := by
    rw [Usage.mem_credited_iff, refers_iff, mentions_iff hname]

/-- Behind a stem stands the whole of a dotted name, and none of the shorter names that it begins
with. -/
example :
    Spells "x=\"@string/title.long\"" "@string/" 3 "title.long"
      ∧ ¬ StandsAt "@string/title" "x=\"@string/title.long\"" 3 := by
  decide

end Reference

end ResourcePruner
