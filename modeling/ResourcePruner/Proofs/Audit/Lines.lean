import ResourcePruner.Audit.Log
import ResourcePruner.Proofs.Json.RoundTrip
import ResourcePruner.Proofs.Text.Parts

/-!
# The log, line by line

What a log holds is what its parts hold, if each part ends the line that it begins
(`Audit.entries_append`). The line of an event holds the event, its objects in the order of their
names (`Audit.entries_line`); blank lines and lines that are no values hold nothing
(`Audit.entries_of_passedOver`).
-/

namespace ResourcePruner

namespace Audit

variable {since : Option Text}

/-! ## Parts of a log -/

/-- The entries of some lines. -/
def entriesOfLines (since : Option Text) (lines : List Text) : Except LogFault (List Json) :=
  (lines.mapM (entryOfLine since)).map (·.filterMap id)

theorem entries_eq (text : Text) :
    entries since text
      = entriesOfLines since (Text.splitAt '\n' (Text.withUniformBreaks text)) := rfl

theorem entriesOfLines_append (lines more : List Text) :
    entriesOfLines since (lines ++ more) = do
      let found ← entriesOfLines since lines
      let others ← entriesOfLines since more
      return found ++ others := by
  rw [entriesOfLines, List.mapM_append, entriesOfLines, entriesOfLines]
  cases lines.mapM (entryOfLine since) with
  | error fault => rfl
  | ok found =>
      cases more.mapM (entryOfLine since) with
      | error fault => rfl
      | ok others => exact congrArg Except.ok List.filterMap_append

/-- No entry is on the line: it is blank, or no value. -/
def IsPassedOver (line : Text) : Prop :=
  (∀ s ∈ line, Text.isBlank s = true) ∨ Json.parse (Text.trim line) = .error .malformed

theorem entryOfLine_of_passedOver {line : Text} (hline : IsPassedOver line) :
    entryOfLine since line = .ok none := by
  have hparse : Json.parse (Text.trim line) = .error .malformed := by
    rcases hline with hblank | hparse
    · rw [Text.trim_of_blank hblank]
      rfl
    · exact hparse
  rw [entryOfLine, hparse]

theorem entriesOfLines_of_passedOver {lines : List Text}
    (hlines : ∀ line ∈ lines, IsPassedOver line) :
    entriesOfLines since lines = .ok [] := by
  induction lines with
  | nil => rfl
  | cons line lines ih =>
      obtain ⟨hline, hlines⟩ := List.forall_mem_cons.mp hlines
      have hone : entriesOfLines since [line] = .ok [] := by
        rw [entriesOfLines, List.mapM_cons, entryOfLine_of_passedOver hline]
        rfl
      rw [← List.singleton_append, entriesOfLines_append, hone, ih hlines]
      rfl

/-- What lines hold, and what comes after them, the whole log holds. -/
theorem entries_append {lines rest : Text} (hlines : Text.AreLines lines) {found more : List Json}
    (hfound : entries since lines = .ok found) (hmore : entries since rest = .ok more) :
    entries since (lines ++ rest) = .ok (found ++ more) := by
  rcases hlines with rfl | ⟨front, rfl⟩
  · cases hfound
    exact hmore
  · obtain ⟨body, hbody⟩ := Text.exists_withUniformBreaks_eq front
    have hempty : entriesOfLines since (Text.splitAt '\n' []) = .ok [] := rfl
    rw [entries_eq, hbody, Text.splitAt_append, entriesOfLines_append, hempty] at hfound
    rw [List.append_assoc, List.singleton_append, entries_eq, Text.withUniformBreaks_append, hbody,
      List.append_assoc, List.singleton_append, Text.splitAt_append, entriesOfLines_append]
    rw [entries_eq] at hmore
    cases hfront : entriesOfLines since (Text.splitAt '\n' body) with
    | error fault =>
        rw [hfront] at hfound
        cases hfound
    | ok first =>
        rw [hfront] at hfound
        cases hfound
        rw [hmore]
        exact congrArg Except.ok (by rw [List.append_nil])

/-- The text is made of lines on which there is no entry. -/
def ArePassedOver (text : Text) : Prop :=
  Text.AreLines text
    ∧ ∀ line ∈ Text.splitAt '\n' (Text.withUniformBreaks text), IsPassedOver line

theorem entries_of_passedOver {text : Text} (htext : ArePassedOver text) :
    entries since text = .ok [] :=
  entriesOfLines_of_passedOver htext.2

end Audit

/-! ## The line of an event -/

namespace Event

/-- Whether the event was recorded at the moment or later. -/
def isSince (since : Option Text) (event : Event) : Bool :=
  since.all fun moment => !decide (event.timestamp < moment)

/-- The event has no number or nesting beyond what is read, and keeps the halves of surrogate pairs
apart. -/
def IsReadable (event : Event) : Prop :=
  Json.IsReadable Json.maxDepth event.toJson

variable {event : Event}

theorem field?_timestamp (event : Event) :
    event.toJson.field? "timestamp" = some (.str event.timestamp) := rfl

theorem exists_compact_eq (event : Event) :
    ∃ middle, event.toJson.compact = .char '{' :: (middle ++ [.char '}']) :=
  ⟨_, Json.compact_obj _⟩

theorem areLines_line (event : Event) : Text.AreLines event.line :=
  .inr ⟨event.toJson.compact, rfl⟩

theorem not_mem_compact (hevent : event.IsReadable) {s : Symbol} (hs : ¬ Json.IsVisible s) :
    s ∉ event.toJson.compact :=
  fun hmem => hs (Json.IsReadable.isVisible hevent s hmem)

theorem isHalf_line (hevent : event.IsReadable) : ∀ s ∈ event.line, s.isHalf = false := by
  refine List.forall_mem_append.mpr ⟨fun s hs => ?_, by decide⟩
  have hvisible := Json.IsReadable.isVisible hevent s hs
  cases s with
  | char c => rfl
  | half n =>
      have hhigh : Symbol.firstHalf + n.val < 0x7F := hvisible.2
      rw [Symbol.firstHalf] at hhigh
      omega

end Event

namespace Audit

variable {since : Option Text} {event : Event}

theorem isSince_sorted (moment : Text) (event : Event) :
    isSince moment event.toJson.sorted = .ok (event.isSince (some moment)) := by
  have hfield := Json.field?_sorted "timestamp" event.toJson
  rw [Event.field?_timestamp] at hfield
  rw [Event.toJson, Json.sorted_obj] at hfield ⊢
  rw [isSince, show Json.lookup "timestamp" _ = _ from hfield]
  rfl

theorem entryOfLine_compact (hevent : event.IsReadable) :
    entryOfLine since event.toJson.compact
      = .ok (if event.isSince since then some event.toJson.sorted else none) := by
  obtain ⟨middle, hmiddle⟩ := event.exists_compact_eq
  have htrim : Text.trim event.toJson.compact = event.toJson.compact := by
    rw [hmiddle]
    exact Text.trim_eq_self (by decide) (by decide) middle
  rw [entryOfLine, htrim, Json.parse_compact hevent]
  cases since with
  | none => rfl
  | some moment =>
      simp only [isSince_sorted]
      rfl

/-- The line of an event holds the event. -/
theorem entries_line (hevent : event.IsReadable) :
    entries since event.line = .ok (([event].filter (·.isSince since)).map (·.toJson.sorted)) := by
  have hreturn : .char '\r' ∉ event.line := by
    rw [Event.line, List.mem_append, not_or]
    exact ⟨Event.not_mem_compact hevent (by decide), by decide⟩
  have hfeed : .char '\n' ∉ event.toJson.compact := Event.not_mem_compact hevent (by decide)
  have hsplit : Text.splitAt '\n' event.line = [event.toJson.compact] ++ [[]] := by
    have h := Text.splitAt_append (.char '\n') event.toJson.compact []
    rwa [Text.splitAt_of_not_mem hfeed] at h
  rw [entries_eq, Text.withUniformBreaks_of_not_mem hreturn, hsplit, entriesOfLines_append,
    entriesOfLines, List.mapM_cons, entryOfLine_compact hevent]
  cases hsince : event.isSince since with
  | true => simp [hsince]; rfl
  | false => simp [hsince]; rfl

end Audit

end ResourcePruner
