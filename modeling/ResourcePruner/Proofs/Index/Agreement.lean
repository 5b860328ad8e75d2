import ResourcePruner.Proofs.Definition.Reread
import ResourcePruner.Proofs.Disk.Readback
import ResourcePruner.Proofs.Index.Build

/-!
# Searching and pruning agree

A definition file is read in two ways. Indexing decodes it leniently, takes every way of ending a
line for a line feed, and searches the lines without terminators; pruning decodes it strictly and
takes the lines as they are. Where the bytes spell a text both find the same declarations, before
the file is pruned and after what is left of it has been written back
(`Index.registers_what_is_pruned`).

That the two cuts find the same is a fact about the text (`Index.declaredIn_of_decode?`,
`Index.Prunes.declaredIn_eq`); what is added here is the way over the disk, for any path by which
the file was read (`Disk.exists_writeWith_of_read`).
-/

namespace ResourcePruner

namespace Catalog

/-- The catalog has grown by the resources declared on the lines of a file, and by nothing else. -/
structure Gains (lines : List Text) (file : Path) (catalog more : Catalog) : Prop where
  contains_iff : ∀ r, more.contains r = true ↔
    catalog.contains r = true ∨ ∃ line ∈ lines, r ∈ Declaration.resourcesOn line
  has_iff : ∀ r f, more.Has r f ↔
    catalog.Has r f ∨ f = file ∧ ∃ line ∈ lines, r ∈ Declaration.resourcesOn line

theorem contains_declare (catalog : Catalog) (r : Resource) (file : Path) (other : Resource) :
    (catalog.declare r file).contains other = true ↔ catalog.contains other = true ∨ other = r := by
  rw [contains, contains, get?_declare]
  by_cases hother : other = r
  · rw [if_pos hother]
    exact iff_of_true rfl (.inr hother)
  · rw [if_neg hother]
    exact (or_iff_left hother).symm

theorem contains_foldl_declare (catalog : Catalog) (resources : List Resource) (file : Path)
    (r : Resource) :
    (resources.foldl (fun c r => c.declare r file) catalog).contains r = true ↔
      catalog.contains r = true ∨ r ∈ resources := by
  induction resources generalizing catalog with
  | nil => simp
  | cons other rest ih =>
      rw [List.foldl_cons, ih, contains_declare, List.mem_cons, or_assoc]

end Catalog

namespace Index

open ResourcePruner.Task (Runs)

theorem gains_declaredIn {bytes : Bytes} {lines : List Text}
    (hdeclared : declaredIn bytes = lines.flatMap Declaration.resourcesOn) (path : Path)
    (catalog : Catalog) :
    catalog.Gains lines path ((declaredIn bytes).foldl (fun c r => c.declare r path) catalog) := by
  have hadds := adds_declaredIn bytes path catalog
  have hmem : ∀ r, r ∈ declaredIn bytes ↔ ∃ line ∈ lines, r ∈ Declaration.resourcesOn line := by
    intro r
    rw [hdeclared, List.mem_flatMap]
  refine ⟨fun r => ?_, fun r file => ?_⟩
  · rw [Catalog.contains_foldl_declare, hmem]
  · rw [← hmem]
    exact ⟨hadds.sound r file, hadds.complete r file⟩

/-- A text without halves is written as it is. -/
theorem runs_writeText {s : Session} {path : Path} {text : Text} {more : Disk}
    (hwhole : ∀ symbol ∈ text, symbol.isHalf = false)
    (hwrite : s.disk.write path (Utf8.encode text) = .ok more) :
    Runs (Task.writeText path text) s () { s with disk := more } := by
  rw [Task.writeText, Utf8.textFault?_eq_none hwhole]
  exact Task.runs_changeDisk.mpr ⟨more, hwrite, rfl⟩

/-- Indexing a definition file whose bytes spell a text enters it under exactly the resources that
are declared on the lines by which it is pruned. Whatever is doomed, what pruning leaves can be
written back, and indexing the file again enters it under exactly the resources on the lines that
stayed. -/
theorem registers_what_is_pruned {s : Session} {path : Path} {bytes : Bytes} {text : Text}
    (hstarts : s.disk.StartsInDirectory path) (hread : s.disk.read path = .ok bytes)
    (hdecode : Utf8.decode? bytes = .ok text) (catalog : Catalog) :
    (∃ more, Runs (addDefinitionFile catalog path) s (true, more) s
      ∧ catalog.Gains (Text.linesWithEnds text) path more)
    ∧ ∀ doomed : Doomed,
      ∃ t, Runs (Task.writeText path (Pruning.ofLines doomed (Text.linesWithEnds text)).text) s () t
        ∧ ∃ more, Runs (addDefinitionFile catalog path) t (true, more) t
          ∧ catalog.Gains (Pruning.ofLines doomed (Text.linesWithEnds text)).lines path more := by
  refine ⟨⟨_, runs_addDefinitionFile_of_read hread catalog,
    gains_declaredIn (declaredIn_of_decode? hdecode) path catalog⟩, fun doomed => ?_⟩
  have hpruned : Utf8.decode? (Utf8.encode
      (Pruning.ofLines doomed (Text.linesWithEnds text)).text) = .ok _ := decode?_pruned hdecode
  obtain ⟨disk, hwrite, hagain, -⟩ := Disk.exists_writeWith_of_read hstarts hread
    fun _ => Utf8.encode (Pruning.ofLines doomed (Text.linesWithEnds text)).text
  exact ⟨{ s with disk }, runs_writeText (Utf8.isHalf_of_decode? hpruned) hwrite,
    _, runs_addDefinitionFile_of_read hagain catalog,
    gains_declaredIn (Prunes.declaredIn_eq hdecode) path catalog⟩

/-! ## Terminators that meet -/

namespace Meeting

/-- Three lines with different terminators. When the second goes, the carriage return of the first
meets the line feed of the third. -/
def text : Text :=
  "<string name=\"kept\"/>\r" ++ "<string name=\"gone\"/>\x0b" ++ "\n"

def path : Path := ⟨.root, ["a.xml"]⟩

def kept : Resource := ⟨.string, "kept"⟩

def gone : Resource := ⟨.string, "gone"⟩

def start : Session where
  disk := (Disk.empty []).put path.place (.file (Utf8.encode text))
  clock := ⟨2024, 12, 24, 18, 0, 0, 0, by decide, by decide⟩
  trail := .start none "run"
  catalog := .empty
  roots := none
  patience := none

def pruning : Pruning := Pruning.ofLines (fun r => r = gone) (Text.linesWithEnds text)

/-- The lines that stay, which are one when they are read again. -/
def left : List Text := [Text.ofString "<string name=\"kept\"/>\r", Text.ofString "\n"]

end Meeting

theorem registers_what_is_pruned_meeting :
    Meeting.start.disk.read Meeting.path = .ok (Utf8.encode Meeting.text)
      ∧ Utf8.decode? (Utf8.encode Meeting.text) = .ok Meeting.text
      ∧ Meeting.pruning.lines = Meeting.left
      ∧ Text.linesWithEnds Meeting.pruning.text = [Meeting.left.flatten]
      ∧ ∃ t, Runs (Task.writeText Meeting.path Meeting.pruning.text) Meeting.start () t
        ∧ ∃ more, Runs (addDefinitionFile .empty Meeting.path) t (true, more) t
          ∧ more.contains Meeting.kept = true ∧ more.contains Meeting.gone = false := by
  have hread : Meeting.start.disk.read Meeting.path = .ok (Utf8.encode Meeting.text) := rfl
  have hdecode : Utf8.decode? (Utf8.encode Meeting.text) = .ok Meeting.text :=
    Utf8.decode?_encode (by decide +kernel)
  have hlines : Meeting.pruning.lines = Meeting.left := by decide +kernel
  refine ⟨hread, hdecode, hlines, by decide +kernel, ?_⟩
  obtain ⟨t, hwrite, more, hagain, hgains⟩ := (registers_what_is_pruned
    (Disk.startsInDirectory_of_isAbsolute _ rfl) hread hdecode .empty).2 fun r => r = Meeting.gone
  have hkept : more.contains Meeting.kept = true := by
    have hdeclared : ∃ line ∈ Meeting.pruning.lines,
        Meeting.kept ∈ Declaration.resourcesOn line := by
      decide +kernel
    exact (hgains.contains_iff _).mpr (.inr hdeclared)
  refine ⟨t, hwrite, more, hagain, hkept, Bool.eq_false_iff.mpr fun hgone => ?_⟩
  rcases (hgains.contains_iff _).mp hgone with hempty | hdeclared
  · cases hempty
  · have hnone : ¬ ∃ line ∈ Meeting.pruning.lines, Meeting.gone ∈ Declaration.resourcesOn line := by
      decide +kernel
    exact hnone hdeclared

end Index

end ResourcePruner
