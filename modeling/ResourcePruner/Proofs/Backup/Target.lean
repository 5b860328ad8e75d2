import ResourcePruner.Backup.Store
import ResourcePruner.Proofs.Disk.Unlooped
import ResourcePruner.Proofs.Task

/-!
# Where copies go

On a disk without link loops, a path has a place in the backup directory exactly if it leads
strictly below the project root: the directory followed by the names that lead from the root to the
path, none of which leads up. So no copy goes outside the directory, and two paths have the same
place just if they lead to the same (`Backup.mirrors_of_isLoopFree`).
-/

namespace ResourcePruner

namespace Backup

open Disk (descend)

variable {root directory path : Path} {names : List Text} {s : Session}

/-- The path lies below the root, and is not the root. -/
def IsStrictlyBelow (root path : Path) : Prop :=
  ∃ names, names ≠ [] ∧ path = descend root names

/-- The names that lead to a path from a root are those behind it. -/
theorem relativeTo_eq_ok_iff : relativeTo root path = .ok names ↔
    names ≠ [] ∧ path = descend root names := by
  constructor
  · intro hnames
    rw [relativeTo] at hnames
    split at hnames
    · rename_i hwithin
      rw [Path.isWithin, Bool.and_eq_true, decide_eq_true_iff,
        List.isPrefixOf_iff_prefix] at hwithin
      obtain ⟨hanchor, behind, hparts⟩ := hwithin
      rw [← hparts, List.drop_left] at hnames
      obtain rfl := Disk.eq_descend_of_append hanchor hparts
      split at hnames
      · cases hnames
      · rename_i hne
        cases hnames
        exact ⟨hne, rfl⟩
    · cases hnames
  · rintro ⟨hne, rfl⟩
    have hwithin : (descend root names).isWithin root = true := by
      rw [Path.isWithin, descend, decide_eq_true rfl, Bool.true_and, List.isPrefixOf_iff_prefix]
      exact List.prefix_append _ _
    obtain ⟨name, rest, rfl⟩ := List.exists_cons_of_ne_nil hne
    rw [relativeTo, if_pos hwithin, descend, List.drop_left]

theorem pathOf_eq_ok_iff {target : Path} :
    pathOf root directory path = .ok target ↔
      ∃ names, names ≠ [] ∧ path = descend root names ∧ target = descend directory names := by
  rw [pathOf]
  constructor
  · intro htarget
    cases hnames : relativeTo root path with
    | error refusal =>
        rw [hnames] at htarget
        cases htarget
    | ok names =>
        rw [hnames] at htarget
        obtain ⟨hne, hpath⟩ := relativeTo_eq_ok_iff.mp hnames
        exact ⟨names, hne, hpath, (Except.ok.inj htarget).symm⟩
  · rintro ⟨names, hne, hpath, rfl⟩
    rw [relativeTo_eq_ok_iff.mpr ⟨hne, hpath⟩]
    rfl

theorem exists_pathOf_error_iff :
    (∃ refusal, pathOf root directory path = .error refusal) ↔ ¬ IsStrictlyBelow root path := by
  cases hpath : pathOf root directory path with
  | error refusal =>
      refine iff_of_true ⟨refusal, rfl⟩ ?_
      rintro ⟨names, hne, heq⟩
      rw [pathOf_eq_ok_iff.mpr ⟨names, hne, heq, rfl⟩] at hpath
      cases hpath
  | ok target =>
      obtain ⟨names, hne, heq, -⟩ := pathOf_eq_ok_iff.mp hpath
      exact iff_of_false nofun fun hnot => hnot ⟨names, hne, heq⟩

/-! ## The place of a copy -/

/-- What the computation does: it resolves both paths and then compares them. -/
theorem exec_targetIn (directory root path : Path) (s : Session) :
    Task.exec (targetIn directory root path) s =
      ((do
        let resolvedRoot ← (s.disk.resolve root).mapError Failure.unresolved
        let resolved ← (s.disk.resolve path).mapError Failure.unresolved
        (pathOf resolvedRoot directory resolved).mapError Failure.backup), s) := by
  have hresolve : ∀ path, Task.exec (Task.resolve path) s
      = ((s.disk.resolve path).mapError Failure.unresolved, s) := by
    intro path
    rw [Task.resolve, Task.exec_bind, Task.exec_get]
    cases hpath : s.disk.resolve path <;> simp only [hpath] <;> rfl
  rw [targetIn, Task.exec_bind, hresolve]
  cases s.disk.resolve root with
  | error fault => rfl
  | ok resolvedRoot =>
      simp only [Except.mapError]
      rw [Task.exec_bind, hresolve]
      cases s.disk.resolve path with
      | error fault => rfl
      | ok resolved =>
          simp only [Except.mapError, bind, Except.bind]
          cases pathOf resolvedRoot directory resolved <;> rfl

/-- A path is backed up under the names that lead to it from the project root, both being resolved;
it is refused exactly if it does not lead strictly below the root. -/
structure Mirrors (s : Session) (root directory path resolvedRoot resolved : Path) : Prop where
  resolve_root : s.disk.resolve root = .ok resolvedRoot
  resolve_eq : s.disk.resolve path = .ok resolved
  isPlain_root : resolvedRoot.IsPlain
  isPlain : resolved.IsPlain
  /-- The path leads to the resolved path, links followed. -/
  follows : ∃ start depth, s.disk.startOf path = some start
    ∧ s.disk.Follows depth ⟨.root, start⟩ path.parts resolved
  refused_iff :
    (∃ refusal, Task.exec (targetIn directory root path) s = (.error (.backup refusal), s))
    ↔ ¬ IsStrictlyBelow resolvedRoot resolved
  accepted_iff : ∀ target, Task.exec (targetIn directory root path) s = (.ok target, s) ↔
    ∃ names, names ≠ [] ∧ (∀ name ∈ names, IsDown name) ∧ resolved = descend resolvedRoot names
      ∧ target = descend directory names

/-- No disk can have one of the paths, or one that a link spells. -/
def IsImpossible (s : Session) (root path : Path) : Prop :=
  ¬ (s.disk.HasSpellableLinks ∧ Disk.AreSpellable root.parts ∧ Disk.AreSpellable path.parts)

theorem exec_targetIn_of_resolve {resolvedRoot resolved : Path}
    (hroot : s.disk.resolve root = .ok resolvedRoot) (hpath : s.disk.resolve path = .ok resolved) :
    Task.exec (targetIn directory root path) s
      = ((pathOf resolvedRoot directory resolved).mapError Failure.backup, s) := by
  rw [exec_targetIn, hroot, hpath]
  rfl

theorem exec_targetIn_eq_ok_iff {target : Path} :
    Task.exec (targetIn directory root path) s = (.ok target, s) ↔
      ∃ resolvedRoot resolved names, s.disk.resolve root = .ok resolvedRoot
        ∧ s.disk.resolve path = .ok resolved ∧ names ≠ [] ∧ resolved = descend resolvedRoot names
        ∧ target = descend directory names := by
  constructor
  · intro hexec
    rw [exec_targetIn] at hexec
    cases hroot : s.disk.resolve root with
    | error fault => rw [hroot] at hexec; cases hexec
    | ok resolvedRoot =>
        cases hpath : s.disk.resolve path with
        | error fault => rw [hroot, hpath] at hexec; cases hexec
        | ok resolved =>
            rw [hroot, hpath] at hexec
            cases htarget : pathOf resolvedRoot directory resolved with
            | error refusal =>
                simp only [bind, Except.bind, Except.mapError, htarget] at hexec
                cases hexec
            | ok found =>
                simp only [bind, Except.bind, Except.mapError, htarget] at hexec
                cases hexec
                obtain ⟨names, hne, hresolved, hfound⟩ := pathOf_eq_ok_iff.mp htarget
                exact ⟨resolvedRoot, resolved, names, rfl, rfl, hne, hresolved, hfound⟩
  · rintro ⟨resolvedRoot, resolved, names, hroot, hpath, hne, hresolved, htarget⟩
    rw [exec_targetIn_of_resolve hroot hpath, pathOf_eq_ok_iff.mpr ⟨names, hne, hresolved, htarget⟩]
    rfl

theorem mirrors_of_resolve {resolvedRoot resolved : Path}
    (hroot : s.disk.resolve root = .ok resolvedRoot) (hpath : s.disk.resolve path = .ok resolved)
    (hplainRoot : resolvedRoot.IsPlain) (hplain : resolved.IsPlain)
    (hfollows : ∃ start depth, s.disk.startOf path = some start
      ∧ s.disk.Follows depth ⟨.root, start⟩ path.parts resolved) :
    Mirrors s root directory path resolvedRoot resolved where
  resolve_root := hroot
  resolve_eq := hpath
  isPlain_root := hplainRoot
  isPlain := hplain
  follows := hfollows
  refused_iff := by
    rw [exec_targetIn_of_resolve hroot hpath, ← exists_pathOf_error_iff]
    cases pathOf resolvedRoot directory resolved <;> simp [Except.mapError]
  accepted_iff target := by
    rw [exec_targetIn_eq_ok_iff]
    constructor
    · rintro ⟨resolvedRoot', resolved', names, hroot', hpath', hne, hresolved, htarget⟩
      obtain rfl := Except.ok.inj (hroot.symm.trans hroot')
      obtain rfl := Except.ok.inj (hpath.symm.trans hpath')
      refine ⟨names, hne, fun name hname => hplain.2 name ?_, hresolved, htarget⟩
      rw [hresolved]
      exact List.mem_append_right _ hname
    · rintro ⟨names, hne, -, hresolved, htarget⟩
      exact ⟨resolvedRoot, resolved, names, hroot, hpath, hne, hresolved, htarget⟩

/-- **Backups are contained and do not collide.** Where no link leads back to itself, each path is
backed up below the directory under the names that lead to it from the project root, is refused
exactly if it does not lead strictly below the root, or is one that no disk can have. Two paths that
are backed up have the same place exactly if they resolve to the same path. -/
theorem mirrors_of_isLoopFree (hfree : s.disk.IsLoopFree) (hhome : s.disk.HasHome)
    (root directory : Path) :
    (∀ path, (∃ resolvedRoot resolved, Mirrors s root directory path resolvedRoot resolved)
        ∨ IsImpossible s root path ∧ ∃ fault,
          Task.exec (targetIn directory root path) s
            = (.error (.unresolved (.impossible fault)), s))
      ∧ ∀ path other target target', Task.exec (targetIn directory root path) s = (.ok target, s) →
        Task.exec (targetIn directory root other) s = (.ok target', s) →
          (target = target' ↔ s.disk.resolve path = s.disk.resolve other) := by
  refine ⟨fun path => ?_, fun path other target target' htarget htarget' => ?_⟩
  · obtain ⟨_, _, resolvedRoot, -, -, hplainRoot, hroot⟩ :=
      Disk.resolve_of_isLoopFree hfree hhome root
    obtain ⟨start, depth, resolved, hstart, hfollows, hplain, hpath⟩ :=
      Disk.resolve_of_isLoopFree hfree hhome path
    rcases hroot with hroot | ⟨hno, fault, hfault⟩
    · rcases hpath with hpath | ⟨hno, fault, hfault⟩
      · exact .inl ⟨resolvedRoot, resolved,
          mirrors_of_resolve hroot hpath hplainRoot hplain ⟨start, depth, hstart, hfollows⟩⟩
      · refine .inr ⟨fun h => hno ⟨h.1, h.2.2⟩, fault, ?_⟩
        rw [exec_targetIn, hroot, hfault]
        rfl
    · refine .inr ⟨fun h => hno ⟨h.1, h.2.1⟩, fault, ?_⟩
      rw [exec_targetIn, hfault]
      rfl
  · obtain ⟨resolvedRoot, resolved, names, hroot, hpath, -, rfl, rfl⟩ :=
      exec_targetIn_eq_ok_iff.mp htarget
    obtain ⟨resolvedRoot', resolved', names', hroot', hother, -, rfl, rfl⟩ :=
      exec_targetIn_eq_ok_iff.mp htarget'
    obtain rfl := Except.ok.inj (hroot.symm.trans hroot')
    rw [hpath, hother, Except.ok.injEq]
    constructor
    · intro heq
      rw [Disk.descend_injective heq]
    · intro heq
      rw [Disk.descend_injective heq]

/-! ## A project behind links -/

namespace Sample

/-- A project with a link inside that takes a detour, and a link to the project beside it. -/
def linked : Disk :=
  ((((((Disk.empty ["work"]).put ["work"] .directory).put ["work", "app"] .directory).put
    ["work", "app", "res"] .directory).put ["work", "app", "res", "a.xml"] (.file [])).put
    ["work", "app", "alias"] (.link "../app//res")).put ["work", "here"] (.link "/work/app")

def session : Session where
  disk := linked
  clock := ⟨2024, 4, 30, 23, 45, 0, 0, by decide, by decide⟩
  trail := .start none "run-0123456789ab"
  catalog := .empty
  roots := none
  patience := none

/-- Through directories, names are followed as they are spelled. -/
theorem enter_directory {depth : Nat} {path goal : Path} {name : Text} {rest : List Text}
    (hname : name ≠ "" ∧ name ≠ "." ∧ name ≠ "..")
    (hentry : linked.get? (path.child name).place = some .directory)
    (hrest : linked.Follows depth (path.child name) rest goal) :
    linked.Follows depth path (name :: rest) goal :=
  .enter hname (fun target h => by rw [hentry] at h; cases h) hrest

theorem follows_alias : linked.Follows 0 ⟨.root, ["work", "app"]⟩ ["..", "app", "", "res"]
    ⟨.root, ["work", "app", "res"]⟩ :=
  .up <| enter_directory (by decide) (by decide +kernel) <| .stay (.inl rfl) <|
    enter_directory (by decide) (by decide +kernel) <| .done _

theorem follows_here : linked.Follows 0 Disk.rootPath
    ["", "work", "app"] ⟨.root, ["work", "app"]⟩ :=
  .stay (.inl rfl) <| enter_directory (by decide) (by decide +kernel) <|
    enter_directory (by decide) (by decide +kernel) <| .done _

theorem isLoopFree_linked : linked.IsLoopFree := by
  have hlinks : linked.links
      = ([(["work", "app", "alias"], "../app//res"), (["work", "here"], "/work/app")]
        : List (Place × Text)) := by
    decide +kernel
  have hfront : ∀ {place front : Place} {name last : Text}, place ++ [name] = front ++ [last] →
      place = front :=
    fun heq => (List.append_inj' heq rfl).1
  intro place name target hlink
  have hmem := Disk.mem_links hlink
  rw [hlinks, List.mem_cons, List.mem_singleton, Prod.mk.injEq, Prod.mk.injEq] at hmem
  rcases hmem with ⟨hplace, rfl⟩ | ⟨hplace, rfl⟩
  · obtain rfl : place = ["work", "app"] := hfront hplace
    exact ⟨0, _, follows_alias⟩
  · obtain rfl : place = ["work"] := hfront hplace
    exact ⟨0, _, follows_here⟩

theorem hasHome_linked : linked.HasHome :=
  ⟨["work"], rfl, by decide +kernel⟩

end Sample

theorem mirrors_of_isLoopFree_linked :
    (∀ path, (∃ resolvedRoot resolved,
          Mirrors Sample.session (Path.ofText "here") (Path.ofText "/b") path resolvedRoot resolved)
        ∨ IsImpossible Sample.session (Path.ofText "here") path ∧ ∃ fault,
          Task.exec (targetIn (Path.ofText "/b") (Path.ofText "here") path) Sample.session
            = (.error (.unresolved (.impossible fault)), Sample.session))
      ∧ ∀ path other target target',
        Task.exec (targetIn (Path.ofText "/b") (Path.ofText "here") path) Sample.session
          = (.ok target, Sample.session) →
        Task.exec (targetIn (Path.ofText "/b") (Path.ofText "here") other) Sample.session
          = (.ok target', Sample.session) →
        (target = target' ↔ Sample.linked.resolve path = Sample.linked.resolve other) :=
  mirrors_of_isLoopFree Sample.isLoopFree_linked Sample.hasHome_linked _ _

/-- Where no link leads back to itself, a path may still be one that no disk can have: then it is
neither refused nor backed up. -/
theorem not_mirrors_nul :
    Sample.linked.IsLoopFree
      ∧ (∀ refusal,
        Task.exec (targetIn (Path.ofText "b") (Path.ofText "app") (Path.ofText "app/a\x00b"))
        Sample.session ≠ (.error (.backup refusal), Sample.session))
      ∧ ∀ target,
        Task.exec (targetIn (Path.ofText "b") (Path.ofText "app") (Path.ofText "app/a\x00b"))
        Sample.session ≠ (.ok target, Sample.session) := by
  have hroot : Sample.linked.resolve (Path.ofText "app") = .ok ⟨.root, ["work", "app"]⟩ := by
    decide +kernel
  have hpath :
      Sample.linked.resolve (Path.ofText "app/a\x00b") = .error (.impossible .nulCharacter) := by
    decide +kernel
  have hexec : Task.exec (targetIn (Path.ofText "b") (Path.ofText "app") (Path.ofText "app/a\x00b"))
      Sample.session = (.error (.unresolved (.impossible .nulCharacter)), Sample.session) := by
    rw [exec_targetIn, show Sample.session.disk = Sample.linked from rfl, hroot, hpath]
    rfl
  rw [hexec]
  exact ⟨Sample.isLoopFree_linked, nofun, nofun⟩

end Backup

end ResourcePruner
