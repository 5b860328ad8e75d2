import ResourcePruner.Text.Lines

/-!
# Lines cut again

What a text is searched by are its lines without terminators; what it is pruned by are its lines
with them. The two agree: `Text.lines_withUniformBreaks`.

When lines are left out and the rest is cut into lines again, nearly the same lines come back. The
exception is a line that ends in a carriage return right before an empty line that ends in a line
feed: these two become one (`Text.Whole.regroups`).
-/

namespace ResourcePruner.Text

/-- A line without its terminator. -/
def chomp (line : Text) : Text :=
  line.takeWhile fun s => !isLineBreak s

/-! ## The two ways of cutting -/

theorem linesWithEnds_cons_break {s : Symbol} {rest : Text} (hbreak : isLineBreak s = true)
    (hpair : ¬ (s = .char '\r' ∧ ∃ more, rest = .char '\n' :: more)) :
    linesWithEnds (s :: rest) = [s] :: linesWithEnds rest := by
  rw [linesWithEnds]
  · rw [if_pos hbreak]
  · rintro more rfl rfl
    exact hpair ⟨rfl, more, rfl⟩

theorem ne_return_of_not_break {s : Symbol} (hbreak : isLineBreak s = false) :
    s ≠ .char '\r' := by
  rintro rfl
  exact absurd hbreak (by decide)

theorem linesWithEnds_cons {s : Symbol} (hbreak : isLineBreak s = false) (rest : Text) :
    linesWithEnds (s :: rest) =
      match linesWithEnds rest with
      | [] => [[s]]
      | line :: others => (s :: line) :: others := by
  rw [linesWithEnds]
  · refine (if_neg (by simp [hbreak])).trans ?_
    cases linesWithEnds rest <;> rfl
  · exact fun _ h _ => ne_return_of_not_break hbreak h

theorem lines_cons {s : Symbol} (hbreak : isLineBreak s = false) (rest : Text) :
    lines (s :: rest) =
      match lines rest with
      | [] => [[s]]
      | line :: others => (s :: line) :: others := by
  rw [lines]
  · refine (if_neg (by simp [hbreak])).trans ?_
    cases lines rest <;> rfl
  · exact fun _ h _ => ne_return_of_not_break hbreak h

theorem withUniformBreaks_cons {s : Symbol} (hreturn : s ≠ .char '\r') (rest : Text) :
    withUniformBreaks (s :: rest) = s :: withUniformBreaks rest := by
  rw [withUniformBreaks]
  · exact fun _ h _ => hreturn h
  · exact hreturn

theorem length_withUniformBreaks (text : Text) : (withUniformBreaks text).length ≤ text.length := by
  fun_induction withUniformBreaks text with
  | case1 => exact Nat.le_refl 0
  | case2 rest ih => simp only [List.length_cons]; omega
  | case3 rest _ ih => simp only [List.length_cons]; omega
  | case4 s rest _ _ ih => simp only [List.length_cons]; omega

theorem chomp_cons {s : Symbol} (hbreak : isLineBreak s = false) (line : Text) :
    chomp (s :: line) = s :: chomp line := by
  simp [chomp, hbreak]

theorem lines_cons_break {s : Symbol} {rest : Text} (hbreak : isLineBreak s = true)
    (hreturn : s ≠ .char '\r') : lines (s :: rest) = [] :: lines rest := by
  rw [lines]
  · rw [if_pos hbreak]
  · exact fun _ h _ => hreturn h

/-- A text searched line by line, whatever its conventions, is its lines without terminators. -/
theorem lines_withUniformBreaks (text : Text) :
    lines (withUniformBreaks text) = (linesWithEnds text).map chomp := by
  fun_induction linesWithEnds text with
  | case1 => rfl
  | case2 rest ih =>
      rw [withUniformBreaks, lines_cons_break (by decide) (by decide), ih]
      rfl
  | case3 s rest hpair hbreak ih =>
      have hchomp : chomp [s] = [] := by simp [chomp, hbreak]
      rw [List.map_cons, hchomp, ← ih]
      by_cases hreturn : s = .char '\r'
      · subst hreturn
        rw [withUniformBreaks, lines_cons_break (by decide) (by decide)]
        exact fun more h => hpair more rfl h
      · rw [withUniformBreaks_cons hreturn, lines_cons_break hbreak hreturn]
  | case4 s rest hpair hbreak hnone ih =>
      rw [Bool.not_eq_true] at hbreak
      rw [withUniformBreaks_cons (ne_return_of_not_break hbreak), lines_cons hbreak, ih, hnone]
      simp [chomp, hbreak]
  | case5 s rest hpair hbreak line others hsome ih =>
      rw [Bool.not_eq_true] at hbreak
      rw [withUniformBreaks_cons (ne_return_of_not_break hbreak), lines_cons hbreak, ih, hsome]
      simp [chomp_cons hbreak]

/-! ## Whole lines -/

/-- A text without line breaks. -/
def IsBody (body : Text) : Prop :=
  ∀ s ∈ body, isLineBreak s = false

/-- A line terminator. -/
def IsEnding (ending : Text) : Prop :=
  ending = "\r\n" ∨ ∃ s, isLineBreak s = true ∧ ending = [s]

/-- Lines as a text is cut into them: each has its terminator, which only the last may lack. -/
inductive Whole : List Text → Prop
  | nil : Whole []
  | last {body : Text} (hbody : IsBody body) (hnonempty : body ≠ []) : Whole [body]
  | cons {body ending : Text} {rest : List Text} (hbody : IsBody body) (hending : IsEnding ending)
      (hrest : Whole rest) : Whole ((body ++ ending) :: rest)

theorem IsBody.cons {s : Symbol} {body : Text} (hbreak : isLineBreak s = false)
    (hbody : IsBody body) : IsBody (s :: body) :=
  List.forall_mem_cons.mpr ⟨hbreak, hbody⟩

theorem isBody_nil : IsBody [] := fun _ h => nomatch h

theorem whole_linesWithEnds (text : Text) : Whole (linesWithEnds text) := by
  fun_induction linesWithEnds text with
  | case1 => exact .nil
  | case2 rest ih => exact .cons isBody_nil (.inl rfl) ih
  | case3 s rest _ hbreak ih => exact .cons isBody_nil (.inr ⟨s, hbreak, rfl⟩) ih
  | case4 s rest _ hbreak _ _ =>
      exact .last (.cons (by simpa using hbreak) isBody_nil) (List.cons_ne_nil s [])
  | case5 s rest _ hbreak line others hsome ih =>
      rw [hsome] at ih
      rw [Bool.not_eq_true] at hbreak
      cases ih with
      | last hbody hnonempty => exact .last (hbody.cons hbreak) (List.cons_ne_nil s line)
      | cons hbody hending hrest => exact .cons (hbody.cons hbreak) hending hrest

/-- Lines some of which are left out are still whole. -/
theorem Whole.sublist {lines kept : List Text} (hwhole : Whole lines) (hkept : kept.Sublist lines) :
    Whole kept := by
  induction hwhole generalizing kept with
  | nil => rw [List.sublist_nil.mp hkept]; exact .nil
  | last hbody hnonempty =>
      cases hkept with
      | cons _ hkept => rw [List.sublist_nil.mp hkept]; exact .nil
      | cons_cons _ hkept => rw [List.sublist_nil.mp hkept]; exact .last hbody hnonempty
  | cons hbody hending hrest ih =>
      cases hkept with
      | cons _ hkept => exact ih hkept
      | cons_cons _ hkept => exact .cons hbody hending (ih hkept)

/-! ## Cutting again -/

/-- The lines `again` are the lines given, but that a line ending in a carriage return may have been
joined with an empty line behind it that ends in a line feed. -/
inductive Regroups : (given again : List Text) → Prop
  | nil : Regroups [] []
  | keep (line : Text) {given again : List Text} (hrest : Regroups given again) :
      Regroups (line :: given) (line :: again)
  | join {body : Text} (hbody : IsBody body) {given again : List Text}
      (hrest : Regroups given again) :
      Regroups ((body ++ [.char '\r']) :: [.char '\n'] :: given)
        ((body ++ [.char '\r', .char '\n']) :: again)

theorem linesWithEnds_lineEnd (rest : Text) :
    linesWithEnds (.char '\r' :: .char '\n' :: rest)
      = [.char '\r', .char '\n'] :: linesWithEnds rest := rfl

/-- A body before a text goes to the first line of the text. -/
theorem linesWithEnds_append {body : Text} (hbody : IsBody body) {text line : Text}
    {others : List Text} (hcut : linesWithEnds text = line :: others) :
    linesWithEnds (body ++ text) = (body ++ line) :: others := by
  induction body with
  | nil => exact hcut
  | cons s body ih =>
      obtain ⟨hbreak, hbody⟩ := List.forall_mem_cons.mp hbody
      rw [List.cons_append, linesWithEnds_cons hbreak, ih hbody]
      rfl

theorem linesWithEnds_body {body : Text} (hbody : IsBody body) (hnonempty : body ≠ []) :
    linesWithEnds body = [body] := by
  induction body with
  | nil => exact absurd rfl hnonempty
  | cons s body ih =>
      obtain ⟨hbreak, hbody⟩ := List.forall_mem_cons.mp hbody
      rw [linesWithEnds_cons hbreak]
      cases body with
      | nil => rfl
      | cons t body => rw [ih hbody (List.cons_ne_nil t body)]

/-- A line feed that begins whole lines is an empty line. -/
theorem Whole.eq_of_flatten_eq_cons {lines : List Text} {more : Text} (hwhole : Whole lines)
    (hflatten : lines.flatten = .char '\n' :: more) :
    ∃ rest, lines = [.char '\n'] :: rest ∧ rest.flatten = more := by
  cases hwhole with
  | nil => cases hflatten
  | @last body hbody hnonempty =>
      rw [List.flatten_singleton] at hflatten
      subst hflatten
      exact absurd (hbody _ List.mem_cons_self) (by decide)
  | @cons body ending rest hbody hending hrest =>
      rw [List.flatten_cons] at hflatten
      cases body with
      | cons s body =>
          obtain ⟨rfl, -⟩ := List.cons.inj hflatten
          exact absurd (hbody _ List.mem_cons_self) (by decide)
      | nil =>
          rcases hending with rfl | ⟨s, hbreak, rfl⟩
          · exact absurd (List.cons.inj hflatten).1 (by decide)
          · obtain ⟨rfl, hmore⟩ := List.cons.inj hflatten
            exact ⟨rest, rfl, hmore⟩

theorem Regroups.of_cons_lineFeed {given again : List Text}
    (hregroups : Regroups ([.char '\n'] :: given) ([.char '\n'] :: again)) :
    Regroups given again := by
  generalize hfirst : [Symbol.char '\n'] :: given = lines at hregroups
  generalize hagain : [Symbol.char '\n'] :: again = lines' at hregroups
  cases hregroups with
  | nil => cases hfirst
  | keep line hrest =>
      obtain ⟨-, rfl⟩ := List.cons.inj hfirst
      obtain ⟨-, rfl⟩ := List.cons.inj hagain
      exact hrest
  | @join body hbody _ _ hrest =>
      have hlast := congrArg List.getLast? (List.cons.inj hfirst).1
      simp at hlast

/-- Whole lines, put together and cut again, come back regrouped. -/
theorem Whole.regroups {lines : List Text} (hwhole : Whole lines) :
    Regroups lines (linesWithEnds lines.flatten) := by
  induction hwhole with
  | nil => exact .nil
  | last hbody hnonempty =>
      rw [List.flatten_singleton, linesWithEnds_body hbody hnonempty]
      exact .keep _ .nil
  | @cons body ending rest hbody hending hrest ih =>
      rw [List.flatten_cons, List.append_assoc]
      rcases hending with rfl | ⟨s, hbreak, rfl⟩
      · have hcut : linesWithEnds ("\r\n" ++ rest.flatten)
            = ("\r\n" : Text) :: linesWithEnds rest.flatten :=
          linesWithEnds_lineEnd rest.flatten
        rw [linesWithEnds_append hbody hcut]
        exact .keep _ ih
      · by_cases hpair : s = .char '\r' ∧ ∃ more, rest.flatten = .char '\n' :: more
        · obtain ⟨rfl, more, hmore⟩ := hpair
          obtain ⟨rest, rfl, rfl⟩ := hrest.eq_of_flatten_eq_cons hmore
          rw [hmore, linesWithEnds_cons_break (by decide) (by simp)] at ih
          rw [hmore, List.singleton_append,
            linesWithEnds_append hbody (linesWithEnds_lineEnd rest.flatten)]
          exact .join hbody ih.of_cons_lineFeed
        · rw [List.singleton_append,
            linesWithEnds_append hbody (linesWithEnds_cons_break hbreak hpair)]
          exact .keep _ ih

/-! ## What regrouping keeps -/

theorem chomp_append_break {body : Text} (hbody : IsBody body) {s : Symbol}
    (hbreak : isLineBreak s = true) (more : Text) : chomp (body ++ s :: more) = body := by
  rw [chomp, List.takeWhile_append_of_pos fun t ht => by simp [hbody t ht]]
  simp [hbreak]

theorem chomp_body {body : Text} (hbody : IsBody body) : chomp body = body := by
  have hplain : ∀ s ∈ body, (!isLineBreak s) = true := fun s hs => by simp [hbody s hs]
  rw [chomp, ← List.append_nil body, List.takeWhile_append_of_pos hplain, List.takeWhile_nil]

/-- Without terminators, no line comes back that was not there. -/
theorem Regroups.exists_chomp_eq {given again : List Text} (hregroups : Regroups given again) :
    ∀ line ∈ again, ∃ line' ∈ given, chomp line = chomp line' := by
  induction hregroups with
  | nil => intro line hline; cases hline
  | keep first _ ih =>
      refine List.forall_mem_cons.mpr ⟨⟨first, List.mem_cons_self, rfl⟩, fun line hline => ?_⟩
      obtain ⟨line', hline', heq⟩ := ih line hline
      exact ⟨line', List.mem_cons_of_mem _ hline', heq⟩
  | @join body hbody _ _ _ ih =>
      refine List.forall_mem_cons.mpr ⟨⟨_, List.mem_cons_self, ?_⟩, fun line hline => ?_⟩
      · rw [chomp_append_break hbody (by decide), chomp_append_break hbody (by decide)]
      · obtain ⟨line', hline', heq⟩ := ih line hline
        exact ⟨line', List.mem_cons_of_mem _ (List.mem_cons_of_mem _ hline'), heq⟩

end ResourcePruner.Text
