import ResourcePruner.Proofs.Declarations
import ResourcePruner.Proofs.Definition.Survival
import ResourcePruner.Text.Blank

/-!
# Extents of declarations, and what goes with them

The extent of a declaration runs from its opening tag to the place where `OpenBlock.seekEnd` ends
it, possibly over several lines. `OpenBlock.stretches` lists, for one line, the parts of extents
that lie on it; it walks the line as `OpenBlock.afterFrom` does, and `OpenBlock.afterFrom_eq` ties
the two together.

Pruning takes whole lines, so it is not surgical: `Pruning.not_isSurgical` is a file that loses the
tag of its root. What holds is that a line goes only when extents run over it and all of them belong
to doomed resources, and that nothing else is lost exactly when the groups that go are blank beside
their extents (`Pruning.stretches_of_dropped`).
-/

namespace ResourcePruner

/-- An occurrence found from `start` on does not stand before `start`. -/
theorem Text.le_of_indexFrom? {sought text : Text} {start n : Nat}
    (hfound : indexFrom? sought text start = some n) : start ≤ n := by
  unfold indexFrom? at hfound
  split at hfound
  · obtain ⟨m, -, rfl⟩ := Option.map_eq_some_iff.mp hfound
    exact Nat.le_add_right start m
  · cases hfound

namespace OpenBlock

/-! ## Extents, line by line -/

/-- The part of an extent that lies on one line: from `first` on and before `last`. -/
structure Stretch where
  /-- The block of the declaration whose extent it is. -/
  block : OpenBlock
  first : Nat
  last : Nat
  /-- The block left open behind the line, if the extent goes on there. -/
  leaves : Option OpenBlock
  deriving DecidableEq

/-- The stretch of a block that is open at `cursor` and whose extent begins on the line at
`first`. -/
def stretchOf (line : Text) (block : OpenBlock) (first cursor : Nat) : Stretch where
  block := block
  first := first
  last := (seekEnd line block cursor).2
  leaves := (seekEnd line block cursor).1

/-- The stretches from `cursor` on; `pending` is the block open there with the position at which
its stretch begins, and `found` are the declarations still to come. -/
def stretchesFrom (line : Text) (pending : Option (OpenBlock × Nat)) (cursor : Nat) :
    (found : List Declaration) → List Stretch
  | [] => (pending.map fun (block, first) => stretchOf line block first cursor).toList
  | d :: others =>
    let opened := some (ofDeclaration d, d.position)
    match pending with
    | none =>
      if d.position < cursor then stretchesFrom line none cursor others
      else stretchesFrom line opened d.valueEnd others
    | some (block, first) =>
      let stretch := stretchOf line block first cursor
      if stretch.leaves.isSome then
        [stretch]
      else if d.position < stretch.last then
        stretch :: stretchesFrom line none stretch.last others
      else
        stretch :: stretchesFrom line opened d.valueEnd others

/-- The stretches on a line before which the given block is open. -/
def stretches (line : Text) (before : Option OpenBlock) : List Stretch :=
  stretchesFrom line (before.map fun block => (block, 0)) 0 (Declaration.onLine line)

/-- A stretch that closes says nothing about the block left open behind those that follow. -/
theorem getLast?_leaves_cons {stretch : Stretch} (hclosed : stretch.leaves = none)
    (others : List Stretch) :
    (stretch :: others).getLast?.bind Stretch.leaves = others.getLast?.bind Stretch.leaves := by
  cases others with
  | nil => simp [hclosed]
  | cons _ _ => rw [List.getLast?_cons_cons]

/-- The block open behind a line is the one that the last stretch leaves open. -/
theorem afterFrom_eq (line : Text) (pending : Option (OpenBlock × Nat)) (cursor : Nat)
    (found : List Declaration) :
    afterFrom line (pending.map Prod.fst) cursor found
      = (stretchesFrom line pending cursor found).getLast?.bind Stretch.leaves := by
  induction found generalizing pending cursor with
  | nil => cases pending <;> rfl
  | cons d others ih =>
      cases pending with
      | none =>
          simp only [afterFrom, stretchesFrom, Option.map_none]
          split
          · exact ih none cursor
          · exact ih (some (ofDeclaration d, d.position)) d.valueEnd
      | some entry =>
          obtain ⟨block, first⟩ := entry
          have hsome := ih (some (ofDeclaration d, d.position)) d.valueEnd
          have hnone := ih none (seekEnd line block cursor).2
          rw [Option.map_none] at hnone
          rw [Option.map_some] at hsome
          cases hseek : seekEnd line block cursor with
          | mk left position =>
              cases left with
              | some left => simp [afterFrom, stretchesFrom, stretchOf, hseek]
              | none =>
                  rw [hseek] at hnone
                  simp only [afterFrom, stretchesFrom, stretchOf, hseek, Option.map_some,
                    Option.isSome_none, Bool.false_eq_true, if_false]
                  split
                  · rw [hnone, getLast?_leaves_cons rfl]
                  · rw [hsome, getLast?_leaves_cons rfl]

/-! ## Whose extent a stretch is -/

/-- The block is one that a declaration of the resource opens. -/
def IsOf (block : OpenBlock) (r : Resource) : Prop :=
  block.element = r.category.key ∧ block.name = r.name ∧ block.closingTag = r.category.closingTag

theorem isOf_ofDeclaration (d : Declaration) : (ofDeclaration d).IsOf d.resource :=
  ⟨rfl, rfl, rfl⟩

/-- It makes no difference whether the opening tag has ended. -/
theorem IsOf.closeTag {block : OpenBlock} {r : Resource} (hof : block.IsOf r) :
    IsOf { block with inTag := false } r :=
  hof

theorem IsOf.of_seekClosingTag {block left : OpenBlock} {r : Resource} (hof : block.IsOf r)
    {line : Text} {cursor : Nat} (hleft : (seekClosingTag line block cursor).1 = some left) :
    left.IsOf r := by
  unfold seekClosingTag at hleft
  split at hleft
  · obtain rfl := Option.some.inj hleft
    exact hof
  · cases hleft

/-- Seeking the end of a block never changes whose block it is. -/
theorem IsOf.of_seekEnd {block left : OpenBlock} {r : Resource} (hof : block.IsOf r)
    {line : Text} {cursor : Nat} (hleft : (seekEnd line block cursor).1 = some left) :
    left.IsOf r := by
  unfold seekEnd at hleft
  split at hleft
  · split at hleft
    · obtain rfl := Option.some.inj hleft
      exact hof
    · split at hleft
      · cases hleft
      · exact of_seekClosingTag (IsOf.closeTag hof) hleft
  · exact hof.of_seekClosingTag hleft

/-- The stretch, and the block it leaves open, belong to a declaration of one of the resources. -/
def Stretch.IsAmong (stretch : Stretch) (resources : List Resource) : Prop :=
  ∃ r ∈ resources, stretch.block.IsOf r ∧ ∀ left, stretch.leaves = some left → left.IsOf r

theorem isAmong_stretchOf (line : Text) {block : OpenBlock} {resources : List Resource}
    (hof : ∃ r ∈ resources, block.IsOf r) (first cursor : Nat) :
    (stretchOf line block first cursor).IsAmong resources := by
  obtain ⟨r, hr, hof⟩ := hof
  exact ⟨r, hr, hof, fun left hleft => hof.of_seekEnd hleft⟩

/-- Every stretch belongs to a declaration found, or to the one whose block is pending. -/
theorem isAmong_of_mem_stretchesFrom {line : Text} {resources : List Resource}
    (pending : Option (OpenBlock × Nat)) (cursor : Nat) (found : List Declaration)
    (hpending : ∀ block first, pending = some (block, first) → ∃ r ∈ resources, block.IsOf r)
    (hfound : ∀ d ∈ found, d.resource ∈ resources) :
    ∀ stretch ∈ stretchesFrom line pending cursor found, stretch.IsAmong resources := by
  have hopened : ∀ d : Declaration, d.resource ∈ resources → ∀ block first,
      some (ofDeclaration d, d.position) = some (block, first) → ∃ r ∈ resources, block.IsOf r := by
    intro d hd block first heq
    obtain ⟨rfl, -⟩ := Prod.mk.injEq .. |>.mp (Option.some.inj heq)
    exact ⟨d.resource, hd, isOf_ofDeclaration d⟩
  induction found generalizing pending cursor with
  | nil =>
      intro stretch hstretch
      cases pending with
      | none => cases hstretch
      | some entry =>
          obtain rfl := List.mem_singleton.mp hstretch
          exact isAmong_stretchOf line (hpending entry.1 entry.2 rfl) _ _
  | cons d others ih =>
      have hd := hopened d (hfound d List.mem_cons_self)
      have hothers : ∀ d ∈ others, d.resource ∈ resources :=
        fun d hd => hfound d (List.mem_cons_of_mem _ hd)
      have hnone : ∀ cursor, ∀ stretch ∈ stretchesFrom line none cursor others,
          stretch.IsAmong resources := fun cursor => ih none cursor (fun _ _ h => nomatch h) hothers
      have hsome := ih (some (ofDeclaration d, d.position)) d.valueEnd hd hothers
      cases pending with
      | none =>
          rw [stretchesFrom]
          split
          · exact hnone cursor
          · exact hsome
      | some entry =>
          have hfirst := isAmong_stretchOf line (hpending entry.1 entry.2 rfl) entry.2 cursor
          simp only [stretchesFrom]
          split
          · exact List.forall_mem_singleton.mpr hfirst
          · split
            · exact List.forall_mem_cons.mpr ⟨hfirst, hnone _⟩
            · exact List.forall_mem_cons.mpr ⟨hfirst, hsome⟩

/-! ## Stretches are not empty -/

theorem lt_seekClosingTag {line : Text} {block : OpenBlock} {r : Resource} (hof : block.IsOf r)
    {n cursor : Nat} (hcursor : n ≤ cursor) (hline : n < line.length) :
    n < (seekClosingTag line block cursor).2 := by
  unfold seekClosingTag
  split
  · exact hline
  · rename_i close hclose
    have hge := Text.le_of_indexFrom? hclose
    have htag : 0 < block.closingTag.length := by
      rw [hof.2.2]
      cases r.category <;> decide
    show n < close + block.closingTag.length
    omega

/-- The end of a block lies behind every place that the cursor has reached. -/
theorem lt_seekEnd {line : Text} {block : OpenBlock} {r : Resource} (hof : block.IsOf r)
    {n cursor : Nat} (hcursor : n ≤ cursor) (hline : n < line.length) :
    n < (seekEnd line block cursor).2 := by
  unfold seekEnd
  split
  · split
    · exact hline
    · rename_i tagEnd htagEnd
      have hge := Text.le_of_indexFrom? htagEnd
      split
      · show n < tagEnd + 1
        omega
      · exact lt_seekClosingTag (IsOf.closeTag hof) (by omega) hline
  · exact lt_seekClosingTag hof hcursor hline

theorem stretchOf_mem_stretchesFrom (line : Text) (block : OpenBlock) (first cursor : Nat)
    (found : List Declaration) :
    stretchOf line block first cursor ∈ stretchesFrom line (some (block, first)) cursor found := by
  cases found with
  | nil => exact List.mem_singleton.mpr rfl
  | cons d others =>
      simp only [stretchesFrom]
      split
      · exact List.mem_singleton.mpr rfl
      · split <;> exact List.mem_cons_self

/-- A line before which a block is open, or on which declarations stand, holds part of an
extent. -/
theorem exists_mem_stretches {line : Text} {before : Option OpenBlock} (hline : line ≠ [])
    (hbefore : ∀ block, before = some block → ∃ r, block.IsOf r)
    (hopen : before.isSome ∨ Declaration.onLine line ≠ []) :
    ∃ stretch ∈ stretches line before, stretch.first < stretch.last := by
  cases before with
  | some block =>
      obtain ⟨r, hof⟩ := hbefore block rfl
      exact ⟨_, stretchOf_mem_stretchesFrom line block 0 0 _,
        lt_seekEnd hof (Nat.zero_le 0) (List.length_pos_iff.mpr hline)⟩
  | none =>
      cases hfound : Declaration.onLine line with
      | nil => exact absurd hfound (by simpa using hopen)
      | cons d others =>
          have hon := (Declaration.isOn_of_mem_onLine (hfound ▸ List.mem_cons_self)).2.valueEnd_lt
          have hmem := stretchOf_mem_stretchesFrom line (ofDeclaration d) d.position d.valueEnd
            others
          refine ⟨stretchOf line (ofDeclaration d) d.position d.valueEnd, ?_,
            lt_seekEnd (isOf_ofDeclaration d) (Nat.le_of_lt hon.1) (Nat.lt_trans hon.1 hon.2)⟩
          simpa only [stretches, Option.map_none, hfound, stretchesFrom, Nat.not_lt_zero, if_false]
            using hmem

/-! ## From line to line -/

/-- The block open before each of some lines. -/
def opens (before : Option OpenBlock) : List Text → List (Option OpenBlock)
  | [] => []
  | line :: rest => before :: opens (after line (Declaration.onLine line) before) rest

/-- The block open behind some lines. -/
def afterLines (before : Option OpenBlock) (lines : List Text) : Option OpenBlock :=
  lines.foldl (fun before line => after line (Declaration.onLine line) before) before

@[simp] theorem length_opens (before : Option OpenBlock) (lines : List Text) :
    (opens before lines).length = lines.length := by
  induction lines generalizing before with
  | nil => rfl
  | cons line rest ih => exact congrArg (· + 1) (ih _)

theorem opens_append (before : Option OpenBlock) (lines more : List Text) :
    opens before (lines ++ more) = opens before lines ++ opens (afterLines before lines) more := by
  induction lines generalizing before with
  | nil => rfl
  | cons line rest ih =>
      simp only [List.cons_append, opens, ih]
      rfl

theorem afterLines_concat (before : Option OpenBlock) (lines : List Text) (line : Text) :
    afterLines before (lines ++ [line])
      = after line (Declaration.onLine line) (afterLines before lines) := by
  rw [afterLines, List.foldl_append]
  rfl

/-- Each line with the block open before it. -/
def rows (lines : List Text) : List (Text × Option OpenBlock) :=
  lines.zip (opens none lines)

theorem rows_concat (lines : List Text) (line : Text) :
    rows (lines ++ [line]) = rows lines ++ [(line, afterLines none lines)] := by
  rw [rows, opens_append, List.zip_append (length_opens none lines).symm]
  rfl

theorem after_eq (line : Text) (before : Option OpenBlock) :
    after line (Declaration.onLine line) before
      = (stretches line before).getLast?.bind Stretch.leaves := by
  have h := afterFrom_eq line (before.map fun block => (block, 0)) 0 (Declaration.onLine line)
  rwa [Option.map_map, show (Prod.fst ∘ fun block : OpenBlock => (block, 0)) = id from rfl,
    Option.map_id, id_eq] at h

end OpenBlock

/-! ## Groups are joined by extents -/

/-- Every line of the group is reached by an extent, and all extents in it belong to resources that
the group declares, the block left open included. -/
structure Group.IsJoined (group : Group) : Prop where
  reached : ∀ row ∈ OpenBlock.rows group.lines,
    row.2.isSome ∨ Declaration.onLine row.1 ≠ []
  among : ∀ row ∈ OpenBlock.rows group.lines, ∀ stretch ∈ OpenBlock.stretches row.1 row.2,
    stretch.IsAmong group.declared
  left : ∀ block, OpenBlock.afterLines none group.lines = some block →
    ∃ r ∈ group.declared, block.IsOf r

theorem Group.isJoined_empty : Group.IsJoined ⟨[], []⟩ where
  reached := fun _ hrow => nomatch hrow
  among := fun _ hrow => nomatch hrow
  left := fun _ h => nomatch h

theorem OpenBlock.Stretch.IsAmong.mono {stretch : Stretch} {resources more : List Resource}
    (hamong : stretch.IsAmong resources) (hsub : resources ⊆ more) : stretch.IsAmong more := by
  obtain ⟨r, hr, hof⟩ := hamong
  exact ⟨r, hsub hr, hof⟩

theorem Group.IsJoined.add {group : Group} (hjoined : group.IsJoined) {line : Text}
    (hreached : (OpenBlock.afterLines none group.lines).isSome ∨ Declaration.onLine line ≠ []) :
    (group.add line).IsJoined := by
  have hmore : group.declared ⊆ (group.add line).declared := List.subset_append_left _ _
  have hline : ∀ stretch ∈ OpenBlock.stretches line (OpenBlock.afterLines none group.lines),
      stretch.IsAmong (group.add line).declared := by
    refine OpenBlock.isAmong_of_mem_stretchesFrom _ _ _ (fun block first hpending => ?_)
      fun d hd => List.mem_append_right _ (List.mem_map_of_mem hd)
    obtain ⟨block', hbefore, heq⟩ := Option.map_eq_some_iff.mp hpending
    obtain ⟨rfl, -⟩ := Prod.mk.injEq .. |>.mp heq
    obtain ⟨r, hr, hof⟩ := hjoined.left block' hbefore
    exact ⟨r, hmore hr, hof⟩
  have hrows : OpenBlock.rows (group.add line).lines
      = OpenBlock.rows group.lines ++ [(line, OpenBlock.afterLines none group.lines)] :=
    OpenBlock.rows_concat group.lines line
  constructor
  case reached =>
    rw [hrows]
    exact List.forall_mem_append.mpr ⟨hjoined.reached, List.forall_mem_singleton.mpr hreached⟩
  case among =>
    rw [hrows]
    refine List.forall_mem_append.mpr ⟨fun row hrow stretch hstretch => ?_,
      List.forall_mem_singleton.mpr hline⟩
    exact (hjoined.among row hrow stretch hstretch).mono hmore
  case left =>
    intro block hblock
    -- The block left open is the one that the last stretch on the new line leaves.
    rw [Group.add, OpenBlock.afterLines_concat, OpenBlock.after_eq] at hblock
    obtain ⟨stretch, hlast, hleaves⟩ := Option.bind_eq_some_iff.mp hblock
    obtain ⟨r, hr, -, hof⟩ := hline stretch (List.mem_of_getLast? hlast)
    exact ⟨r, hr, hof block hleaves⟩

theorem OpenBlock.after_of_onLine_eq_nil {line : Text} (hfound : Declaration.onLine line = []) :
    after line (Declaration.onLine line) none = none := by
  rw [hfound]
  rfl

/-- Groups are joined, each starts and ends with no block open, and so the blocks open before the
lines can be read off part by part. -/
theorem Layout.isJoined_ofLinesAfter (held : Option (Group × OpenBlock)) (text : List Text)
    (hheld : ∀ g b, held = some (g, b) →
      g.IsJoined ∧ OpenBlock.afterLines none g.lines = some b) :
    (∀ g, Part.group g ∈ (ofLinesAfter held text).parts → g.IsJoined)
      ∧ OpenBlock.opens none (((held.map fun tail => tail.1.lines).getD []) ++ text)
        = (ofLinesAfter held text).parts.flatMap (fun part => OpenBlock.opens none part.lines)
          ++ OpenBlock.opens none (ofLinesAfter held text).tailLines := by
  -- The group as it is after one more line, with the block open behind it.
  have hgrown : ∀ (held : Option (Group × OpenBlock)) (line : Text),
      (∀ g b, held = some (g, b) → g.IsJoined ∧ OpenBlock.afterLines none g.lines = some b) →
      ¬ (held.isNone && (Declaration.onLine line).isEmpty) = true →
        (((held.map Prod.fst).getD ⟨[], []⟩).add line).IsJoined
          ∧ OpenBlock.afterLines none (((held.map Prod.fst).getD ⟨[], []⟩).add line).lines
            = OpenBlock.after line (Declaration.onLine line) (held.map Prod.snd) := by
    intro held line hheld hfresh
    cases held with
    | none =>
        refine ⟨Group.isJoined_empty.add (.inr fun hfound => hfresh ?_), rfl⟩
        simp [hfound]
    | some entry =>
        obtain ⟨hjoined, hopen⟩ := hheld entry.1 entry.2 rfl
        refine ⟨hjoined.add (.inl (by rw [hopen]; rfl)), ?_⟩
        exact (OpenBlock.afterLines_concat none entry.1.lines line).trans (by rw [hopen]; rfl)
  have hlines : ∀ (held : Option (Group × OpenBlock)) (line : Text) (rest : List Text),
      ((held.map fun tail => tail.1.lines).getD []) ++ line :: rest
        = (((held.map Prod.fst).getD ⟨[], []⟩).add line).lines ++ rest := by
    intro held line rest
    cases held <;> simp [Group.add]
  fun_induction ofLinesAfter held text with
  | case1 held => exact ⟨fun g hg => by simp at hg, by simp [tailLines]⟩
  | case2 held line rest hfresh ih =>
      obtain ⟨hnone, hfound⟩ := Bool.and_eq_true_iff.mp hfresh
      obtain rfl := Option.isNone_iff_eq_none.mp hnone
      obtain ⟨hparts, hopens⟩ := ih fun g b h => by cases h
      refine ⟨fun g hg => hparts g (by simpa [cons] using hg), ?_⟩
      have hclosed := OpenBlock.after_of_onLine_eq_nil (List.isEmpty_iff.mp hfound)
      simp only [Option.map_none, Option.getD_none, List.nil_append] at hopens ⊢
      rw [OpenBlock.opens, hclosed, hopens]
      rfl
  | case3 held line rest hfresh group block hblock ih =>
      obtain ⟨hjoined, hopen⟩ := hgrown held line hheld hfresh
      rw [hlines]
      refine ih fun g b h => ?_
      obtain ⟨rfl, rfl⟩ := Prod.mk.injEq .. |>.mp (Option.some.inj h)
      exact ⟨hjoined, hopen.trans hblock⟩
  | case4 held line rest hfresh group hblock ih =>
      obtain ⟨hjoined, hopen⟩ := hgrown held line hheld hfresh
      obtain ⟨hparts, hopens⟩ := ih fun g b h => by cases h
      refine ⟨fun g hg => ?_, ?_⟩
      · rcases List.mem_cons.mp hg with h | h
        · obtain rfl := Part.group.inj h
          exact hjoined
        · exact hparts g h
      · rw [hlines, OpenBlock.opens_append, hopen, hblock]
        simp only [Option.map_none, Option.getD_none, List.nil_append] at hopens
        rw [hopens, ← List.append_assoc]
        rfl

theorem Layout.isJoined_ofLines (text : List Text) :
    (∀ g, Part.group g ∈ (ofLines text).parts → g.IsJoined)
      ∧ OpenBlock.opens none text
        = (ofLines text).parts.flatMap (fun part => OpenBlock.opens none part.lines)
          ++ OpenBlock.opens none (ofLines text).tailLines :=
  isJoined_ofLinesAfter none text fun _ _ h => nomatch h

/-! ## What goes with the declarations -/

/-- The stretch belongs to a doomed resource. -/
def OpenBlock.Stretch.IsDoomed (doomed : Doomed) (stretch : Stretch) : Prop :=
  ∃ r, doomed r = true ∧ stretch.block.IsOf r

/-- The position lies in the stretch. -/
def OpenBlock.Stretch.Covers (stretch : Stretch) (i : Nat) : Prop :=
  stretch.first ≤ i ∧ i < stretch.last

namespace Pruning

/-- The lines that go, each with the block open before it. -/
def dropped (doomed : Doomed) (lines : List Text) : List (Text × Option OpenBlock) :=
  (((marked doomed lines).zip (OpenBlock.opens none lines)).filter fun row => !row.1.2).map
    fun row => (row.1.1, row.2)

/-- On the lines that go, only blanks lie outside the extents of doomed declarations. -/
def IsSurgical (doomed : Doomed) (lines : List Text) : Prop :=
  ∀ row ∈ dropped doomed lines, ∀ i s, row.1[i]? = some s →
    (∀ stretch ∈ OpenBlock.stretches row.1 row.2,
      stretch.IsDoomed doomed → ¬ stretch.Covers i) → Text.isBlank s = true

/-- A root tag on the line of a doomed declaration goes with it. -/
theorem not_isSurgical : ¬ ∀ doomed lines, IsSurgical doomed lines := by
  intro h
  let r : Resource := ⟨.string, Text.ofString "a"⟩
  let line := Text.ofString "<resources><string name=\"a\">A</string>\n"
  have hrow : (line, none) ∈ dropped (· == r) [line, Text.ofString "</resources>\n"] := by
    decide
  have hfirst : ∀ stretch ∈ OpenBlock.stretches line none, stretch.first = 11 := by decide
  have hblank := h _ _ _ hrow 0 (.char '<') (by decide) fun stretch hstretch _ hcovers => by
    have := hfirst stretch hstretch
    have := hcovers.1
    omega
  exact absurd hblank (by decide)

theorem zip_flatMap_append {α β γ : Type} (f : α → List β) (g : α → List γ)
    (hlength : ∀ a, (f a).length = (g a).length) (l : List α) (t : List β) (t' : List γ) :
    (l.flatMap f ++ t).zip (l.flatMap g ++ t')
      = l.flatMap (fun a => (f a).zip (g a)) ++ t.zip t' := by
  induction l with
  | nil => rfl
  | cons a rest ih =>
      simp only [List.flatMap_cons, List.append_assoc]
      rw [List.zip_append (hlength a), ih]

/-- A line that goes is one of a group that is dropped. -/
theorem exists_group_of_mem_dropped {doomed : Doomed} {lines : List Text}
    {row : Text × Option OpenBlock} (hrow : row ∈ dropped doomed lines) :
    ∃ g, Part.group g ∈ (Layout.ofLines lines).parts ∧ g.isDropped doomed = true
      ∧ row ∈ OpenBlock.rows g.lines := by
  obtain ⟨⟨⟨line, stays⟩, before⟩, hmem, rfl⟩ := List.mem_map.mp hrow
  obtain ⟨hmem, hgoes⟩ := List.mem_filter.mp hmem
  rw [(Layout.isJoined_ofLines lines).2, marked, zip_flatMap_append (Part.marked doomed)
    (fun part => OpenBlock.opens none part.lines) fun part => by simp [Part.marked]] at hmem
  rcases List.mem_append.mp hmem with hmem | hmem
  · obtain ⟨part, hpart, hmem⟩ := List.mem_flatMap.mp hmem
    simp only [Part.marked, List.zip_map_left] at hmem
    obtain ⟨⟨line', before'⟩, hzipped, heq⟩ := List.mem_map.mp hmem
    simp only [Prod.map_apply, id_eq, Prod.mk.injEq] at heq
    obtain ⟨⟨rfl, hstays⟩, rfl⟩ := heq
    cases part with
    | filler _ => simp [← hstays] at hgoes
    | group g => exact ⟨g, hpart, by simpa [← hstays] using hgoes, hzipped⟩
  · rw [List.zip_map_left] at hmem
    obtain ⟨_, _, heq⟩ := List.mem_map.mp hmem
    simp [← (Prod.mk.injEq .. |>.mp (Prod.mk.injEq .. |>.mp heq).1).2] at hgoes

/-- **Whole lines go.** An extent that is not empty runs over every line that goes, all extents on
it belong to doomed resources, and so does all that it declares. Everything else on the line goes
as well: removal is surgical exactly when only blanks lie beside the extents. -/
theorem extents_of_dropped (doomed : Doomed) (lines : List Text) :
    (∀ row ∈ dropped doomed lines,
        (∀ stretch ∈ OpenBlock.stretches row.1 row.2, stretch.IsDoomed doomed)
        ∧ (row.1 ≠ [] → ∃ stretch ∈ OpenBlock.stretches row.1 row.2, stretch.first < stretch.last)
        ∧ ∀ r ∈ Declaration.resourcesOn row.1, doomed r = true)
      ∧ (IsSurgical doomed lines ↔
          ∀ row ∈ dropped doomed lines, ∀ i s, row.1[i]? = some s →
            (∀ stretch ∈ OpenBlock.stretches row.1 row.2, ¬ stretch.Covers i) →
              Text.isBlank s = true) := by
  have hjoined := (Layout.isJoined_ofLines lines).1
  have hdoomed : ∀ row ∈ dropped doomed lines,
      ∀ stretch ∈ OpenBlock.stretches row.1 row.2, stretch.IsDoomed doomed := by
    intro row hrow stretch hstretch
    obtain ⟨g, hg, hdrop, hmem⟩ := exists_group_of_mem_dropped hrow
    obtain ⟨r, hr, hof, -⟩ := (hjoined g hg).among row hmem stretch hstretch
    simp only [Group.isDropped, Bool.and_eq_true] at hdrop
    exact ⟨r, List.all_eq_true.mp hdrop.2 r hr, hof⟩
  refine ⟨fun row hrow => ⟨hdoomed row hrow, fun hline => ?_, fun r hr => ?_⟩, ?_⟩
  · obtain ⟨g, hg, hdrop, hmem⟩ := exists_group_of_mem_dropped hrow
    refine OpenBlock.exists_mem_stretches hline (fun block hbefore => ?_)
      ((hjoined g hg).reached row hmem)
    have hstretch : OpenBlock.stretchOf row.1 block 0 0 ∈ OpenBlock.stretches row.1 row.2 := by
      rw [OpenBlock.stretches, hbefore]
      exact OpenBlock.stretchOf_mem_stretchesFrom row.1 block 0 0 _
    obtain ⟨r, -, hof⟩ := hdoomed row hrow _ hstretch
    exact ⟨r, hof⟩
  · obtain ⟨g, hg, hdrop, hmem⟩ := exists_group_of_mem_dropped hrow
    exact Group.doomed_of_isDropped (Layout.isExact_ofLines hg) hdrop (List.of_mem_zip hmem).1 hr
  · refine ⟨fun h row hrow i s hs hfree => h row hrow i s hs fun stretch hstretch _ =>
      hfree stretch hstretch, fun h row hrow i s hs hfree => h row hrow i s hs fun stretch
      hstretch => hfree stretch hstretch (hdoomed row hrow stretch hstretch)⟩

end Pruning

end ResourcePruner
