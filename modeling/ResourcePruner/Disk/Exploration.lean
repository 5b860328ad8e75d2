import ResourcePruner.Disk.Walk

/-!
# Exploring a tree

An exploration carries with it the paths of the directories that wait to be listed. It lists the
next one, takes what it is after, and has the subdirectories that it enters wait before all others,
by name. A directory that the disk refuses to list is reported and yields nothing: that can be the
root, and any directory further down whose path has grown too long to be looked up.

That an exploration ends is part of its definition (`Disk.Exploration.wellFounded_comesNext`). What
waits grows shorter where a directory is refused, and where it is listed its subdirectories wait by
longer paths, of which none can be looked up that has more parts than a path has room for.

Where every directory can be listed, the files are those that `Disk.walkFiles` tells at once. That
walk looks at the tree and not at the lengths of the paths below its root, so that it goes on where
an exploration reports a directory whose path is too long.
-/

namespace ResourcePruner

namespace Disk

variable {α : Type}

/-- What an exploration has come to. -/
structure Findings (α : Type) where
  taken : List α
  /-- The errors of the directories that could not be listed. -/
  refused : List Error

namespace Findings

def none : Findings α := ⟨[], []⟩

/-- A directory could not be listed. -/
def refusal (error : Error) : Findings α := ⟨[], [error]⟩

instance : Append (Findings α) where
  append a b := ⟨a.taken ++ b.taken, a.refused ++ b.refused⟩

/-- All findings, one after the other. -/
def join (parts : List (Findings α)) : Findings α := ⟨parts.flatMap taken, parts.flatMap refused⟩

end Findings

/-- The place of a directory that is to be listed, or the error with which the disk refuses. The
disk is not asked about a path that no disk can have. -/
def listable (disk : Disk) (path : Path) : Except Error (Except Error Place) :=
  match disk.openDirectory path with
  | .ok place => .ok (.ok place)
  | .error error => if error.isRefusal then .ok (.error error) else .error error

/-- What an exploration is after. -/
structure Aim (α : Type) where
  /-- Whether subdirectories of that name are entered. -/
  enters : Text → Bool
  /-- What is taken from a directory, by its path and its place. -/
  take : Path → Place → Except Error (Findings α)

/-- The subdirectories of a directory that are entered, by name. -/
def subdirectories (disk : Disk) (enters : Text → Bool) (path : Path) (place : Place) : List Path :=
  ((disk.children place).filter fun (name, entry) => entry = .directory && enters name).map
    fun (name, _) => path.child name

/-! ## Long paths -/

/-- The slashes between its parts alone make a path long. -/
theorem length_parts_le (path : Path) : path.parts.length ≤ byteCount path.text + 1 := by
  have hparts : ∀ parts : List Text,
      parts.length ≤ byteCount (parts.intersperse ("/" : Text)).flatten + 1 := by
    intro parts
    induction parts with
    | nil => exact Nat.zero_le _
    | cons first rest ih =>
        cases rest with
        | nil => exact Nat.le_add_left 1 _
        | cons second rest =>
            rw [List.intersperse_cons_cons, List.flatten_cons, List.flatten_cons, byteCount_append,
              byteCount_append, show byteCount "/" = 1 from rfl, List.length_cons]
            omega
  rw [Path.text]
  split
  · rename_i hhere
    rw [List.isEmpty_iff.mp (Bool.and_eq_true_iff.mp hhere).2]
    exact Nat.zero_le _
  · rw [byteCount_append]
    exact Nat.le_trans (hparts path.parts) (by omega)

theorem length_parts_of_openDirectory {disk : Disk} {path : Path} {place : Place}
    (hopen : disk.openDirectory path = .ok place) : path.parts.length ≤ maxPathBytes + 1 := by
  refine Nat.le_trans (length_parts_le path) (Nat.succ_le_succ (Nat.le_of_not_lt fun hlong => ?_))
  rw [openDirectory, reach] at hopen
  cases hfault : pathFault? path.text with
  | some fault => simp [hfault] at hopen
  | none => simp [hfault, hlong] at hopen

theorem length_parts_of_mem_subdirectories {disk : Disk} {enters : Text → Bool} {path sub : Path}
    {place : Place} (hsub : sub ∈ disk.subdirectories enters path place) :
    sub.parts.length = path.parts.length + 1 := by
  obtain ⟨child, -, rfl⟩ := List.mem_map.mp hsub
  exact List.length_append

/-! ## Explorations -/

/-- An exploration under way. -/
structure Exploration (disk : Disk) (aim : Aim α) where
  /-- The directories that wait to be listed, the next one first. -/
  waiting : List Path
  findings : Findings α

namespace Exploration

variable {disk : Disk} {aim : Aim α}

/-- Lists a directory; its subdirectories wait before all others. -/
def visit (exploration : Exploration disk aim) (current : Path) :
    Except Error (Exploration disk aim) := do
  match ← disk.listable current with
  | .error error => return { exploration with findings := exploration.findings ++ .refusal error }
  | .ok place =>
    let found ← aim.take current place
    return {
      waiting := disk.subdirectories aim.enters current place ++ exploration.waiting
      findings := exploration.findings ++ found }

/-- A directory that was visited waits no more. It was refused, or its subdirectories wait in its
place. -/
theorem waiting_of_visit {exploration next : Exploration disk aim} {current : Path}
    (hvisit : exploration.visit current = .ok next) :
    (∃ error, disk.openDirectory current = .error error ∧ error.isRefusal = true
        ∧ next.waiting = exploration.waiting)
      ∨ ∃ place, disk.openDirectory current = .ok place
        ∧ next.waiting = disk.subdirectories aim.enters current place ++ exploration.waiting := by
  rw [visit, listable] at hvisit
  cases hopen : disk.openDirectory current with
  | error error =>
      rw [hopen] at hvisit
      cases hrefusal : error.isRefusal with
      | false =>
          simp only [hrefusal] at hvisit
          cases hvisit
      | true =>
          simp only [hrefusal, if_true] at hvisit
          cases hvisit
          exact .inl ⟨error, rfl, hrefusal, rfl⟩
  | ok place =>
      rw [hopen] at hvisit
      change (do let found ← aim.take current place; _) = _ at hvisit
      cases htake : aim.take current place with
      | error error =>
          rw [htake] at hvisit
          cases hvisit
      | ok found =>
          rw [htake] at hvisit
          cases hvisit
          exact .inr ⟨place, rfl, rfl⟩

/-- Visiting the directory that waits first leads from one exploration to the next. -/
def ComesNext (next exploration : Exploration disk aim) : Prop :=
  ∃ current waiting findings, exploration = ⟨current :: waiting, findings⟩
    ∧ visit ⟨waiting, findings⟩ current = .ok next

/-- By a path that has no room for so many more parts an exploration ends if it ends without it. -/
theorem acc_of_lt {path : Path} {room : Nat} (hroom : maxPathBytes + 1 < path.parts.length + room)
    {waiting : List Path}
    (hrest : ∀ findings, Acc ComesNext (⟨waiting, findings⟩ : Exploration disk aim))
    (findings : Findings α) :
    Acc ComesNext (⟨path :: waiting, findings⟩ : Exploration disk aim) := by
  induction room generalizing path waiting findings with
  | zero =>
      refine .intro _ ?_
      rintro ⟨_, found⟩ ⟨_, _, _, heq, hvisit⟩
      cases heq
      rcases waiting_of_visit hvisit with ⟨-, -, -, rfl⟩ | ⟨place, hopen, -⟩
      · exact hrest found
      · exact absurd (length_parts_of_openDirectory hopen) (Nat.not_le_of_lt hroom)
  | succ room ih =>
      have hsubs : ∀ subs : List Path, (∀ sub ∈ subs, maxPathBytes + 1 < sub.parts.length + room) →
          ∀ findings, Acc ComesNext (⟨subs ++ waiting, findings⟩ : Exploration disk aim) := by
        intro subs hsubs
        induction subs with
        | nil => exact hrest
        | cons sub rest ihrest =>
            obtain ⟨hsub, hrest⟩ := List.forall_mem_cons.mp hsubs
            exact ih hsub (ihrest hrest)
      refine .intro _ ?_
      rintro ⟨_, found⟩ ⟨_, _, _, heq, hvisit⟩
      cases heq
      rcases waiting_of_visit hvisit with ⟨-, -, -, rfl⟩ | ⟨place, -, rfl⟩
      · exact hrest found
      · refine hsubs _ (fun sub hsub => ?_) found
        rw [length_parts_of_mem_subdirectories hsub]
        omega

/-- No exploration goes on for ever. -/
theorem wellFounded_comesNext :
    WellFounded (ComesNext : Exploration disk aim → Exploration disk aim → Prop) := by
  refine ⟨fun exploration => ?_⟩
  obtain ⟨waiting, findings⟩ := exploration
  induction waiting generalizing findings with
  | nil =>
      refine .intro _ ?_
      rintro next ⟨_, _, _, heq, -⟩
      cases heq
  | cons path rest ih =>
      have hroom : maxPathBytes + 1 < path.parts.length + (maxPathBytes + 2) := by omega
      exact acc_of_lt hroom ih findings

instance : WellFoundedRelation (Exploration disk aim) := ⟨ComesNext, wellFounded_comesNext⟩

/-- Lists directories until none waits. -/
def finish : Exploration disk aim → Except Error (Findings α)
  | ⟨[], findings⟩ => .ok findings
  | ⟨current :: waiting, findings⟩ =>
    match _hvisit : visit ⟨waiting, findings⟩ current with
    | .error error => .error error
    | .ok next => finish next
termination_by exploration => exploration
decreasing_by exact ⟨current, waiting, findings, rfl, _hvisit⟩

end Exploration

/-- What an exploration from a directory on comes to. -/
def explore (disk : Disk) (aim : Aim α) (root : Path) : Except Error (Findings α) :=
  (⟨[root], .none⟩ : Exploration disk aim).finish

/-- Files are sought outside skipped directories. -/
def filesAim (disk : Disk) (skipped : List Text) : Aim Path where
  enters name := !isSkipped skipped name
  take path place := .ok ⟨(disk.filesIn place).map (descend path), []⟩

/-- The files below a path outside skipped directories, and the directories that could not be
listed. -/
def exploreFiles (disk : Disk) (root : Path) (skipped : List Text) :
    Except Error (Findings Path) :=
  disk.explore (disk.filesAim skipped) root

end Disk

end ResourcePruner
