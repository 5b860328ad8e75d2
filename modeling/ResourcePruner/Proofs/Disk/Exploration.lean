import Mathlib.Data.List.Forall2
import ResourcePruner.Disk.Exploration
import ResourcePruner.Proofs.Disk.Below
import ResourcePruner.Proofs.Disk.Order

/-!
# What an exploration comes to

An exploration comes to what a recursion over the tree comes to (`Disk.explore_eq_harvest`): what it
takes from a directory, and then, one after the other, what it comes to below the subdirectories
that it enters. The bound on the depth of the recursion excludes nothing, so that an exploration
ends.

A way is met if every directory on it but the last has been listed (`Disk.IsMet`). What an
exploration has found is what the directories at the end of such ways contribute
(`Disk.mem_harvest`), each to be found once if they contribute different things
(`Disk.nodup_harvest`).
-/

namespace ResourcePruner

theorem Path.child_injective {path : Path} {name other : Text}
    (heq : path.child name = path.child other) : name = other := by
  simpa [child] using heq

namespace Disk

variable {α β : Type} {disk : Disk}

/-! ## Findings -/

namespace Findings

theorem append_def (a b : Findings α) : a ++ b = ⟨a.taken ++ b.taken, a.refused ++ b.refused⟩ := rfl

theorem append_assoc (a b c : Findings α) : a ++ b ++ c = a ++ (b ++ c) := by
  simp only [append_def, List.append_assoc]

theorem none_append (a : Findings α) : .none ++ a = a := rfl

theorem append_none (a : Findings α) : a ++ .none = a := by
  simp only [append_def, none, List.append_nil]

theorem join_nil : join [] = (.none : Findings α) := rfl

theorem join_cons (a : Findings α) (parts : List (Findings α)) :
    join (a :: parts) = a ++ join parts := rfl

end Findings

/-! ## Directories that are listed -/

theorem listable_of_ok {path : Path} {place : Place} (hopen : disk.openDirectory path = .ok place) :
    disk.listable path = .ok (.ok place) := by
  rw [listable, hopen]

theorem listable_of_refusal {path : Path} {error : Error}
    (hopen : disk.openDirectory path = .error error) (hrefusal : error.isRefusal = true) :
    disk.listable path = .ok (.error error) := by
  rw [listable, hopen]
  simp only [hrefusal, if_true]

theorem path_of_openDirectory {path : Path} {error : Error}
    (hopen : disk.openDirectory path = .error error) : error.path = path := by
  rw [openDirectory] at hopen
  split at hopen <;> cases hopen <;> rfl

/-- The paths are those of the children of a path with the property, by name. -/
def AreByName (path : Path) (P : Text → Prop) (paths : List Path) : Prop :=
  ∃ names : List Text, paths = names.map path.child ∧ names.Pairwise (· < ·)
    ∧ ∀ name, name ∈ names ↔ P name

theorem areByName_children (disk : Disk) (path : Path) (place : Place)
    (keeps : Text × Entry → Bool) :
    AreByName path (fun name => ∃ entry, disk.get? (place ++ [name]) = some entry
        ∧ keeps (name, entry) = true)
      (((disk.children place).filter keeps).map fun child => path.child child.1) := by
  refine ⟨((disk.children place).filter keeps).map Prod.fst, by rw [List.map_map]; rfl,
    List.pairwise_map.mpr ((pairwise_children disk place).filter _), fun name => ?_⟩
  simp only [List.mem_map, List.mem_filter, Prod.exists, mem_children]
  constructor
  · rintro ⟨_, entry, ⟨hlies, hkeeps⟩, rfl⟩
    exact ⟨entry, hlies, hkeeps⟩
  · rintro ⟨entry, hlies, hkeeps⟩
    exact ⟨name, entry, ⟨hlies, hkeeps⟩, rfl⟩

section

variable {path : Path} {P Q : Text → Prop} {paths : List Path}

theorem AreByName.congr (hpaths : AreByName path P paths) (hiff : ∀ name, P name ↔ Q name) :
    AreByName path Q paths := by
  obtain ⟨names, heq, hordered, hmem⟩ := hpaths
  exact ⟨names, heq, hordered, fun name => (hmem name).trans (hiff name)⟩

theorem AreByName.mem_iff (hpaths : AreByName path P paths) {other : Path} :
    other ∈ paths ↔ ∃ name, other = path.child name ∧ P name := by
  obtain ⟨names, rfl, -, hmem⟩ := hpaths
  simp only [List.mem_map, hmem]
  exact exists_congr fun name => by rw [and_comm, eq_comm]

theorem AreByName.nodup (hpaths : AreByName path P paths) : paths.Nodup := by
  obtain ⟨names, rfl, hordered, -⟩ := hpaths
  refine List.pairwise_map.mpr (hordered.imp fun hless heq => ?_)
  exact StrictOrder.ne_of_lt hless (Path.child_injective heq)

end

theorem areByName_subdirectories (disk : Disk) (enters : Text → Bool) (path : Path)
    (place : Place) : AreByName path
      (fun name => disk.get? (place ++ [name]) = some .directory ∧ enters name = true)
      (disk.subdirectories enters path place) := by
  refine (areByName_children disk path place _).congr fun name => ?_
  simp only [Bool.and_eq_true, decide_eq_true_eq]
  constructor
  · rintro ⟨_, hlies, rfl, henters⟩
    exact ⟨hlies, henters⟩
  · rintro ⟨hlies, henters⟩
    exact ⟨_, hlies, rfl, henters⟩

theorem flatMap_filter {γ : Type} (keeps : γ → Bool) (f : γ → List β) (list : List γ) :
    (list.filter keeps).flatMap f = list.flatMap fun a => if keeps a then f a else [] := by
  induction list with
  | nil => rfl
  | cons a rest ih =>
      rw [List.filter_cons, List.flatMap_cons, ← ih]
      split
      · exact List.flatMap_cons
      · rfl

theorem flatMap_subdirectories (enters : Text → Bool) (path : Path) (place : Place)
    (f : Path → List β) :
    (disk.subdirectories enters path place).flatMap f = (disk.children place).flatMap fun child =>
      if child.2 = .directory && enters child.1 then f (path.child child.1) else [] := by
  rw [subdirectories, List.flatMap_map]
  exact flatMap_filter _ _ _

/-! ## Directories below one that is listed -/

section

variable {root path sub : Path} {place names : Place} {enters : Text → Bool}

theorem isLookedUp_of_openDirectory (hopen : disk.openDirectory root = .ok place) :
    IsLookedUp root :=
  isLookedUp_of_reach (found_of_openDirectory hopen) nofun

theorem openDirectory_of_not_isLookedUp (hspellable : pathFault? path.text = none)
    (hlooked : ¬ IsLookedUp path) : disk.openDirectory path = .error ⟨.nameTooLong, path⟩ := by
  have hlong : maxPathBytes < byteCount path.text :=
    Nat.lt_of_not_le fun hle => hlooked ⟨hspellable, hle⟩
  rw [openDirectory, reach, hspellable]
  simp only [if_pos hlong]

/-- A directory below one that is listed can be listed too, unless its path is too long. -/
theorem openDirectory_descend_cases (hopen : disk.openDirectory root = .ok place)
    (hlies : disk.get? (place ++ names) = some .directory) :
    IsLookedUp (descend root names) ∧ disk.openDirectory (descend root names) = .ok (place ++ names)
      ∨ ¬ IsLookedUp (descend root names)
        ∧ disk.openDirectory (descend root names) = .error ⟨.nameTooLong, descend root names⟩ := by
  by_cases hlooked : IsLookedUp (descend root names)
  · exact .inl ⟨hlooked, openDirectory_descend hopen hlies hlooked⟩
  · refine .inr ⟨hlooked, openDirectory_of_not_isLookedUp ?_ hlooked⟩
    exact isSpellable_text_iff.mpr (areSpellable_descend (isLookedUp_of_openDirectory hopen) hlies)

theorem mem_subdirectories :
    sub ∈ disk.subdirectories enters path place ↔
      ∃ name, sub = path.child name ∧ disk.get? (place ++ [name]) = some .directory
        ∧ enters name = true :=
  (areByName_subdirectories disk enters path place).mem_iff

/-- So many levels are enough for all that lies below a path. -/
structure IsEnough (disk : Disk) (path : Path) (depth : Nat) : Prop where
  pos : 0 < depth
  le : ∀ place, disk.openDirectory path = .ok place → disk.depthBound ≤ place.length + depth
  isRefusal : ∀ error, disk.openDirectory path = .error error → error.isRefusal = true

theorem isEnough_depthBound
    (hroot : ∀ error, disk.openDirectory path = .error error → error.isRefusal = true) :
    disk.IsEnough path disk.depthBound :=
  ⟨Nat.succ_pos _, fun _ _ => Nat.le_add_left .., hroot⟩

theorem isEnough_of_openDirectory (hopen : disk.openDirectory path = .ok place) :
    disk.IsEnough path disk.depthBound :=
  isEnough_depthBound fun error herror => by cases hopen.symm.trans herror

theorem IsEnough.subdirectory {depth : Nat} (henough : disk.IsEnough path (depth + 1))
    (hopen : disk.openDirectory path = .ok place)
    (hsub : sub ∈ disk.subdirectories enters path place) : disk.IsEnough sub depth := by
  obtain ⟨name, rfl, hlies, -⟩ := mem_subdirectories.mp hsub
  have hdepth := henough.le place hopen
  have hlength := length_lt_depthBound hlies
  rw [List.length_append, List.length_singleton] at hlength
  refine ⟨by omega, fun inner hinner => ?_, fun error herror => ?_⟩
  · rcases openDirectory_descend_cases hopen hlies with ⟨-, hdown⟩ | ⟨-, hdown⟩
    · obtain rfl := Except.ok.inj (hdown.symm.trans hinner)
      rw [List.length_append, List.length_singleton]
      omega
    · cases hdown.symm.trans hinner
  · rcases openDirectory_descend_cases hopen hlies with ⟨-, hdown⟩ | ⟨-, hdown⟩
    · cases hdown.symm.trans herror
    · obtain rfl := Except.error.inj (hdown.symm.trans herror)
      rfl

end

/-! ## Exploring by recursion -/

/-- An exploration takes that much from a directory that is listed. -/
def Aim.Takes (aim : Aim α) (disk : Disk) (own : Path → Place → Findings α) : Prop :=
  ∀ path place, disk.openDirectory path = .ok place → aim.take path place = .ok (own path place)

/-- What a directory contributes itself. -/
def contribution (disk : Disk) (own : Path → Place → Findings α) (path : Path) : Findings α :=
  match disk.openDirectory path with
  | .ok place => own path place
  | .error error => .refusal error

/-- What a directory contributes and, one after the other, the subdirectories that are entered, at
most `depth` levels deep. -/
def harvest (disk : Disk) (enters : Text → Bool) (own : Path → Place → Findings α) :
    (depth : Nat) → Path → Findings α
  | 0, _ => .none
  | depth + 1, path =>
    match disk.openDirectory path with
    | .ok place =>
      own path place
        ++ .join ((disk.subdirectories enters path place).map (harvest disk enters own depth))
    | .error error => .refusal error

variable {aim : Aim α} {own : Path → Place → Findings α}

namespace Exploration

theorem visit_of_ok (htakes : aim.Takes disk own) {path : Path} {place : Place}
    (hopen : disk.openDirectory path = .ok place) (exploration : Exploration disk aim) :
    exploration.visit path
      = .ok ⟨disk.subdirectories aim.enters path place ++ exploration.waiting,
        exploration.findings ++ own path place⟩ := by
  rw [visit, listable_of_ok hopen]
  change (do let found ← aim.take path place; _) = _
  rw [htakes path place hopen]
  rfl

theorem visit_of_refusal {path : Path} {error : Error}
    (hopen : disk.openDirectory path = .error error) (hrefusal : error.isRefusal = true)
    (exploration : Exploration disk aim) :
    exploration.visit path
      = .ok { exploration with findings := exploration.findings ++ .refusal error } := by
  rw [visit, listable_of_refusal hopen hrefusal]
  rfl

theorem visit_of_error {path : Path} {error : Error}
    (hopen : disk.openDirectory path = .error error) (hrefusal : error.isRefusal = false)
    (exploration : Exploration disk aim) : exploration.visit path = .error error := by
  rw [visit, listable, hopen]
  simp only [hrefusal]
  rfl

variable {path : Path} {waiting : List Path} {findings : Findings α}

theorem finish_nil : (⟨[], findings⟩ : Exploration disk aim).finish = .ok findings := by
  rw [finish]

theorem finish_of_visit {next : Exploration disk aim}
    (hvisit : visit ⟨waiting, findings⟩ path = .ok next) :
    (⟨path :: waiting, findings⟩ : Exploration disk aim).finish = next.finish := by
  rw [finish]
  split
  · rename_i herror
    cases hvisit.symm.trans herror
  · rename_i hok
    rw [Except.ok.inj (hvisit.symm.trans hok)]

theorem finish_of_error {error : Error}
    (hvisit : visit (⟨waiting, findings⟩ : Exploration disk aim) path = .error error) :
    (⟨path :: waiting, findings⟩ : Exploration disk aim).finish = .error error := by
  rw [finish]
  split
  · rename_i herror
    rw [Except.error.inj (hvisit.symm.trans herror)]
  · rename_i hok
    cases hvisit.symm.trans hok

/-- From the path that waits first on, an exploration goes the way of the recursion. -/
theorem finish_cons (htakes : aim.Takes disk own) {depth : Nat}
    (henough : disk.IsEnough path depth) (waiting : List Path) (findings : Findings α) :
    (⟨path :: waiting, findings⟩ : Exploration disk aim).finish
      = (⟨waiting, findings ++ disk.harvest aim.enters own depth path⟩
        : Exploration disk aim).finish := by
  induction depth generalizing path waiting findings with
  | zero => exact absurd henough.pos (Nat.lt_irrefl 0)
  | succ depth ih =>
      cases hopen : disk.openDirectory path with
      | error error =>
          rw [finish_of_visit (visit_of_refusal hopen (henough.isRefusal error hopen) _), harvest,
            hopen]
      | ok place =>
          have hsubs : ∀ subs : List Path, (∀ sub ∈ subs, disk.IsEnough sub depth) → ∀ findings,
              (⟨subs ++ waiting, findings⟩ : Exploration disk aim).finish
                = (⟨waiting, findings ++ .join (subs.map (disk.harvest aim.enters own depth))⟩
                  : Exploration disk aim).finish := by
            intro subs hsubs
            induction subs with
            | nil =>
                intro findings
                rw [List.map_nil, Findings.join_nil, Findings.append_none, List.nil_append]
            | cons sub rest ihrest =>
                obtain ⟨hsub, hrest⟩ := List.forall_mem_cons.mp hsubs
                intro findings
                rw [List.cons_append, ih hsub, ihrest hrest, List.map_cons, Findings.join_cons,
                  Findings.append_assoc]
          rw [finish_of_visit (visit_of_ok htakes hopen _), hsubs, harvest, hopen,
            Findings.append_assoc]
          exact fun sub hsub => henough.subdirectory hopen hsub

end Exploration

/-- An exploration comes to what the recursion comes to. -/
theorem explore_eq_harvest (htakes : aim.Takes disk own) {root : Path} {depth : Nat}
    (henough : disk.IsEnough root depth) :
    disk.explore aim root = .ok (disk.harvest aim.enters own depth root) := by
  rw [explore, Exploration.finish_cons htakes henough, Findings.none_append, Exploration.finish_nil]

/-- A root that no disk can have ends an exploration at once. -/
theorem explore_of_error {root : Path} {error : Error}
    (hopen : disk.openDirectory root = .error error) (hrefusal : error.isRefusal = false) :
    disk.explore aim root = .error error :=
  Exploration.finish_of_error (Exploration.visit_of_error hopen hrefusal _)

/-- An exploration of a directory takes what it takes there and then, one after the other, what the
explorations of its subdirectories come to. -/
theorem exists_explore_eq (htakes : aim.Takes disk own) {root : Path} {place : Place}
    (hopen : disk.openDirectory root = .ok place) :
    ∃ parts, (disk.subdirectories aim.enters root place).Forall₂
        (fun sub part => disk.explore aim sub = .ok part) parts
      ∧ disk.explore aim root = .ok (own root place ++ .join parts) := by
  have henough : disk.IsEnough root (disk.contents.length + 1) := isEnough_of_openDirectory hopen
  refine ⟨(disk.subdirectories aim.enters root place).map
    (disk.harvest aim.enters own disk.contents.length), ?_, ?_⟩
  · rw [List.forall₂_map_right_iff, List.forall₂_same]
    exact fun sub hsub => explore_eq_harvest htakes (henough.subdirectory hopen hsub)
  · rw [explore_eq_harvest htakes henough, harvest, hopen]

/-- An exploration goes down the tree. A root that the disk refuses to list yields nothing
and is reported, and only that; one that no disk can have ends the exploration. From a root that is
listed is taken what it contributes, and then what the explorations of the subdirectories that are
entered come to, by name. -/
structure GoesDown (disk : Disk) (aim : Aim α) (own : Path → Place → Findings α) (root : Path) :
    Prop where
  unlisted : ∀ error, disk.openDirectory root = .error error →
    disk.explore aim root = if error.isRefusal then .ok ⟨[], [error]⟩ else .error error
  listed : ∀ place, disk.openDirectory root = .ok place →
    ∃ parts, (disk.subdirectories aim.enters root place).Forall₂
        (fun sub part => disk.explore aim sub = .ok part) parts
      ∧ disk.explore aim root = .ok (own root place ++ .join parts)
  byName : ∀ place, AreByName root
    (fun name => disk.get? (place ++ [name]) = some .directory ∧ aim.enters name = true)
    (disk.subdirectories aim.enters root place)

theorem goesDown (htakes : aim.Takes disk own) (root : Path) : GoesDown disk aim own root where
  unlisted error hopen := by
    split
    · rename_i hrefusal
      have henough : disk.IsEnough root disk.depthBound := by
        refine isEnough_depthBound fun other hother => ?_
        obtain rfl := Except.error.inj (hopen.symm.trans hother)
        exact hrefusal
      rw [explore_eq_harvest htakes henough, depthBound, harvest, hopen]
      rfl
    · rename_i hrefusal
      exact explore_of_error hopen (Bool.eq_false_iff.mpr hrefusal)
  listed _ := exists_explore_eq htakes
  byName := areByName_subdirectories disk aim.enters root

/-! ## What is found -/

/-- From a path on, the names lead down through directories that are listed and entered. Whether the
last one can be listed is left open. -/
def IsMet (disk : Disk) (enters : Text → Bool) : Path → List Text → Prop
  | _, [] => True
  | path, name :: rest =>
    (∃ place, disk.openDirectory path = .ok place ∧ disk.get? (place ++ [name]) = some .directory)
      ∧ enters name = true ∧ IsMet disk enters (path.child name) rest

theorem IsMet.enters {enters : Text → Bool} {path : Path} {way : List Text}
    (hmet : IsMet disk enters path way) : ∀ name ∈ way, enters name = true := by
  induction way generalizing path with
  | nil => exact nofun
  | cons name rest ih => exact List.forall_mem_cons.mpr ⟨hmet.2.1, ih hmet.2.2⟩

/-- A part of findings that can be read off their pieces. -/
structure IsPart (part : Findings α → List β) : Prop where
  none : part .none = []
  append (a b : Findings α) : part (a ++ b) = part a ++ part b
  join (parts : List (Findings α)) : part (.join parts) = parts.flatMap part

theorem isPart_taken : IsPart (Findings.taken (α := α)) :=
  ⟨rfl, fun _ _ => rfl, fun _ => rfl⟩

theorem isPart_refused : IsPart (Findings.refused (α := α)) :=
  ⟨rfl, fun _ _ => rfl, fun _ => rfl⟩

variable {enters : Text → Bool} {part : Findings α → List β}

/-- What is found are the contributions of the directories that are met. -/
theorem mem_harvest (hpart : IsPart part) {depth : Nat} {path : Path} {b : β} :
    b ∈ part (disk.harvest enters own depth path) ↔
      ∃ way, way.length < depth ∧ IsMet disk enters path way
        ∧ b ∈ part (disk.contribution own (descend path way)) := by
  induction depth generalizing path with
  | zero => simp [harvest, hpart.none]
  | succ depth ih =>
      cases hopen : disk.openDirectory path with
      | error error =>
          rw [harvest, hopen]
          constructor
          · intro hb
            refine ⟨[], Nat.succ_pos depth, trivial, ?_⟩
            rwa [descend_nil, contribution, hopen]
          · rintro ⟨way, -, hmet, hb⟩
            cases way with
            | nil => rwa [descend_nil, contribution, hopen] at hb
            | cons name rest =>
                obtain ⟨⟨place, hplace, -⟩, -⟩ := hmet
                cases hopen.symm.trans hplace
      | ok place =>
          rw [harvest, hopen]
          simp only [hpart.append, hpart.join, List.mem_append, List.mem_flatMap, List.mem_map]
          constructor
          · rintro (hb | ⟨_, ⟨sub, hsub, rfl⟩, hb⟩)
            · refine ⟨[], Nat.succ_pos depth, trivial, ?_⟩
              rwa [descend_nil, contribution, hopen]
            · obtain ⟨name, rfl, hlies, henters⟩ := mem_subdirectories.mp hsub
              obtain ⟨way, hlength, hmet, hb⟩ := ih.mp hb
              refine ⟨name :: way, Nat.succ_lt_succ hlength, ⟨⟨place, hopen, hlies⟩, henters, hmet⟩,
                ?_⟩
              rwa [descend_cons]
          · rintro ⟨way, hlength, hmet, hb⟩
            cases way with
            | nil => exact .inl (by rwa [descend_nil, contribution, hopen] at hb)
            | cons name rest =>
                obtain ⟨⟨other, hother, hlies⟩, henters, hmet⟩ := hmet
                obtain rfl := Except.ok.inj (hopen.symm.trans hother)
                rw [descend_cons] at hb
                exact .inr ⟨_, ⟨_, mem_subdirectories.mpr ⟨name, rfl, hlies, henters⟩, rfl⟩,
                  ih.mpr ⟨rest, Nat.lt_of_succ_lt_succ hlength, hmet, hb⟩⟩

theorem IsMet.of_subdirectory {path : Path} {name : Text} {place : Place} {way : List Text}
    (hmet : IsMet disk enters (path.child name) way) (hopen : disk.openDirectory path = .ok place)
    (hsub : path.child name ∈ disk.subdirectories enters path place) :
    IsMet disk enters path (name :: way) := by
  obtain ⟨_, hname, hlies, henters⟩ := mem_subdirectories.mp hsub
  obtain rfl := Path.child_injective hname
  exact ⟨⟨place, hopen, hlies⟩, henters, hmet⟩

theorem exists_of_mem_harvest (hpart : IsPart part) {depth : Nat} {path : Path} {name : Text}
    {place : Place} {b : β} (hopen : disk.openDirectory path = .ok place)
    (hsub : path.child name ∈ disk.subdirectories enters path place)
    (hb : b ∈ part (disk.harvest enters own depth (path.child name))) :
    ∃ way, IsMet disk enters path (name :: way)
      ∧ b ∈ part (disk.contribution own (descend path (name :: way))) := by
  obtain ⟨way, -, hmet, hb⟩ := (mem_harvest hpart).mp hb
  exact ⟨way, hmet.of_subdirectory hopen hsub, by rwa [descend_cons]⟩

/-- If each directory contributes nothing twice, and no two that are met contribute the same, then
nothing is found twice. -/
theorem nodup_harvest (hpart : IsPart part) {depth : Nat} {path : Path}
    (hown : ∀ way, (part (disk.contribution own (descend path way))).Nodup)
    (hapart : ∀ way way' b, IsMet disk enters path way → IsMet disk enters path way' →
      b ∈ part (disk.contribution own (descend path way)) →
      b ∈ part (disk.contribution own (descend path way')) → way = way') :
    (part (disk.harvest enters own depth path)).Nodup := by
  induction depth generalizing path with
  | zero => simp [harvest, hpart.none]
  | succ depth ih =>
      have hfirst := hown []
      rw [descend_nil, contribution] at hfirst
      rw [harvest]
      cases hopen : disk.openDirectory path with
      | error error => rwa [hopen] at hfirst
      | ok place =>
          rw [hopen] at hfirst
          simp only [hpart.append, hpart.join, List.flatMap_map]
          refine List.nodup_append.mpr ⟨hfirst, ?_, ?_⟩
          · refine List.pairwise_flatMap.mpr ⟨fun sub hsub => ?_, ?_⟩
            · obtain ⟨name, rfl, -⟩ := mem_subdirectories.mp hsub
              refine ih (fun way => ?_) fun way way' b hmet hmet' hb hb' => ?_
              · rw [← descend_cons]
                exact hown (name :: way)
              · rw [← descend_cons] at hb hb'
                exact (List.cons.inj (hapart _ _ b (hmet.of_subdirectory hopen hsub)
                  (hmet'.of_subdirectory hopen hsub) hb hb')).2
            · refine (areByName_subdirectories disk enters path place).nodup.imp_of_mem ?_
              rintro sub sub' hsub hsub' hne b hb _ hb' rfl
              obtain ⟨name, rfl, -⟩ := mem_subdirectories.mp hsub
              obtain ⟨name', rfl, -⟩ := mem_subdirectories.mp hsub'
              obtain ⟨way, hmet, hb⟩ := exists_of_mem_harvest hpart hopen hsub hb
              obtain ⟨way', hmet', hb'⟩ := exists_of_mem_harvest hpart hopen hsub' hb'
              exact hne (congrArg path.child (List.cons.inj (hapart _ _ b hmet hmet' hb hb')).1)
          · rintro b hb _ hb' rfl
            obtain ⟨sub, hsub, hb'⟩ := List.mem_flatMap.mp hb'
            obtain ⟨name, rfl, -⟩ := mem_subdirectories.mp hsub
            obtain ⟨way, hmet, hb'⟩ := exists_of_mem_harvest hpart hopen hsub hb'
            have hb : b ∈ part (disk.contribution own (descend path [])) := by
              rwa [descend_nil, contribution, hopen]
            cases hapart [] _ b trivial hmet hb hb'

/-! ## Which directories are met -/

/-- A way is met if it goes down through directories that are entered, and the paths of all but the
last one can be looked up. -/
theorem isMet_iff {root : Path} {place : Place} {way : List Text}
    (hopen : disk.openDirectory root = .ok place) :
    IsMet disk enters root way ↔
      IsWay disk enters place way
        ∧ ∀ front, front <+: way → front ≠ way → IsLookedUp (descend root front) := by
  induction way generalizing root place with
  | nil =>
      exact iff_of_true trivial ⟨trivial, fun front hfront hne =>
        absurd (List.prefix_nil.mp hfront) hne⟩
  | cons name rest ih =>
      have hroot : IsLookedUp (descend root []) := by
        rw [descend_nil]
        exact isLookedUp_of_openDirectory hopen
      rw [IsMet, IsWay]
      by_cases hlies : disk.get? (place ++ [name]) = some .directory
      · have hinner : IsMet disk enters (root.child name) rest ↔
            IsWay disk enters (place ++ [name]) rest
              ∧ ∀ front, front <+: rest → front ≠ rest →
                IsLookedUp (descend root (name :: front)) := by
          rcases openDirectory_descend_cases hopen hlies with ⟨-, hdown⟩ | ⟨hlooked, hdown⟩
          · simp only [descend_cons]
            exact ih hdown
          · cases rest with
            | nil =>
                exact iff_of_true trivial ⟨trivial, fun front hfront hne =>
                  absurd (List.prefix_nil.mp hfront) hne⟩
            | cons next more =>
                refine iff_of_false ?_ fun h =>
                  hlooked (h.2 [] (List.nil_prefix) (List.cons_ne_nil next more).symm)
                rintro ⟨⟨_, hplace, -⟩, -⟩
                cases hdown.symm.trans hplace
        rw [hinner]
        constructor
        · rintro ⟨-, henters, hway, hfronts⟩
          refine ⟨⟨hlies, henters, hway⟩, fun front hfront hne => ?_⟩
          rcases List.prefix_cons_iff.mp hfront with rfl | ⟨inner, rfl, hinner⟩
          · exact hroot
          · exact hfronts inner hinner fun heq => hne (heq ▸ rfl)
        · rintro ⟨⟨-, henters, hway⟩, hfronts⟩
          refine ⟨⟨place, hopen, hlies⟩, henters, hway, fun front hfront hne => ?_⟩
          exact hfronts _ (List.cons_prefix_cons.mpr ⟨rfl, hfront⟩)
            fun heq => hne (List.cons.inj heq).2
      · refine iff_of_false ?_ fun h => hlies h.1.1
        rintro ⟨⟨_, hplace, hname⟩, -⟩
        obtain rfl := Except.ok.inj (hopen.symm.trans hplace)
        exact hlies hname

theorem IsWay.get?_append {place : Place} {way : List Text} (hway : IsWay disk enters place way)
    (hne : way ≠ []) : disk.get? (place ++ way) = some .directory := by
  induction way generalizing place with
  | nil => exact absurd rfl hne
  | cons name rest ih =>
      rw [List.append_cons]
      by_cases hlast : rest = []
      · rw [hlast, List.append_nil]
        exact hway.1
      · exact ih hway.2.2 hlast

theorem ne_nil_of_not_isLookedUp {root : Path} {place : Place} {way : List Text}
    (hopen : disk.openDirectory root = .ok place) (hlong : ¬ IsLookedUp (descend root way)) :
    way ≠ [] := by
  rintro rfl
  rw [descend_nil] at hlong
  exact hlong (isLookedUp_of_openDirectory hopen)

/-- A directory that is met can be listed if its path can be looked up; otherwise the path is too
long. -/
theorem openDirectory_of_isMet {root : Path} {place : Place} {way : List Text}
    (hopen : disk.openDirectory root = .ok place) (hmet : IsMet disk enters root way) :
    IsLookedUp (descend root way) ∧ disk.openDirectory (descend root way) = .ok (place ++ way)
      ∨ way ≠ [] ∧ ¬ IsLookedUp (descend root way)
        ∧ disk.openDirectory (descend root way) = .error ⟨.nameTooLong, descend root way⟩ := by
  by_cases hway : way = []
  · subst hway
    rw [descend_nil, List.append_nil]
    exact .inl ⟨isLookedUp_of_openDirectory hopen, hopen⟩
  · have hlies := ((isMet_iff hopen).mp hmet).1.get?_append hway
    exact (openDirectory_descend_cases hopen hlies).imp_right fun h => ⟨hway, h⟩

/-- The directories that are listed, by their ways. -/
theorem isMet_and_openDirectory_iff {root : Path} {place inner : Place} {way : List Text}
    (hopen : disk.openDirectory root = .ok place) :
    IsMet disk enters root way ∧ disk.openDirectory (descend root way) = .ok inner ↔
      inner = place ++ way ∧ IsWay disk enters place way
        ∧ ∀ front, front <+: way → IsLookedUp (descend root front) := by
  constructor
  · rintro ⟨hmet, hinner⟩
    rcases openDirectory_of_isMet hopen hmet with ⟨hlooked, hdown⟩ | ⟨-, -, hdown⟩
    · obtain ⟨hway, hfronts⟩ := (isMet_iff hopen).mp hmet
      refine ⟨Except.ok.inj (hinner.symm.trans hdown), hway, fun front hfront => ?_⟩
      by_cases hwhole : front = way
      · rwa [hwhole]
      · exact hfronts front hfront hwhole
    · cases hdown.symm.trans hinner
  · rintro ⟨rfl, hway, hfronts⟩
    have hmet := (isMet_iff hopen).mpr ⟨hway, fun front hfront _ => hfronts front hfront⟩
    refine ⟨hmet, ?_⟩
    rcases openDirectory_of_isMet hopen hmet with ⟨-, hdown⟩ | ⟨-, hlooked, -⟩
    · exact hdown
    · exact absurd (hfronts way (List.prefix_refl way)) hlooked

/-- The directories that are met and cannot be listed, by their ways. -/
theorem isMet_and_error_iff {root : Path} {place : Place} {way : List Text} {error : Error}
    (hopen : disk.openDirectory root = .ok place) :
    IsMet disk enters root way ∧ disk.openDirectory (descend root way) = .error error ↔
      error = ⟨.nameTooLong, descend root way⟩ ∧ IsWay disk enters place way
        ∧ (∀ front, front <+: way → front ≠ way → IsLookedUp (descend root front))
        ∧ ¬ IsLookedUp (descend root way) := by
  constructor
  · rintro ⟨hmet, herror⟩
    obtain ⟨hway, hfronts⟩ := (isMet_iff hopen).mp hmet
    rcases openDirectory_of_isMet hopen hmet with ⟨-, hdown⟩ | ⟨-, hlooked, hdown⟩
    · cases hdown.symm.trans herror
    · exact ⟨Except.error.inj (herror.symm.trans hdown), hway, hfronts, hlooked⟩
  · rintro ⟨rfl, hway, hfronts, hlooked⟩
    have hmet := (isMet_iff hopen).mpr ⟨hway, hfronts⟩
    refine ⟨hmet, ?_⟩
    rcases openDirectory_of_isMet hopen hmet with ⟨hlooked', -⟩ | ⟨-, -, hdown⟩
    · exact absurd hlooked' hlooked
    · exact hdown

/-! ## Where everything can be listed -/

/-- Where every directory that is entered can be listed, an exploration takes what a walk over the
places takes. -/
theorem taken_harvest_eq (names : Place → List (List Text)) (make : Path → List Text → Option α)
    (hmake : ∀ path name rest, make (Path.child path name) rest = make path (name :: rest))
    {depth : Nat} {root : Path} {place : Place} (hopen : disk.openDirectory root = .ok place)
    (hlooked : ∀ way, IsWay disk enters place way → IsLookedUp (descend root way))
    (hown : ∀ way, IsWay disk enters place way →
      (own (descend root way) (place ++ way)).taken
        = (names (place ++ way)).filterMap (make (descend root way))) :
    (disk.harvest enters own depth root).taken
      = (disk.preorder enters names depth place).filterMap (make root) := by
  induction depth generalizing root place with
  | zero => rfl
  | succ depth ih =>
      have hself := hown [] trivial
      rw [descend_nil, List.append_nil] at hself
      rw [harvest, hopen, preorder, List.filterMap_append, ← hself, List.filterMap_flatMap]
      refine congrArg ((own root place).taken ++ ·) ?_
      simp only [Findings.join, List.flatMap_map, flatMap_subdirectories]
      refine List.flatMap_congr ?_
      rintro ⟨name, entry⟩ hchild
      simp only
      split
      · rename_i hentered
        obtain ⟨hentry, henters⟩ := Bool.and_eq_true_iff.mp hentered
        obtain rfl := of_decide_eq_true hentry
        have hlies := mem_children.mp hchild
        have hdown : ∀ {way}, IsWay disk enters (place ++ [name]) way →
            IsWay disk enters place (name :: way) := fun hway => ⟨hlies, henters, hway⟩
        have hinner : disk.openDirectory (root.child name) = .ok (place ++ [name]) :=
          openDirectory_descend hopen hlies (hlooked [name] (hdown trivial))
        rw [ih hinner ?_ ?_, List.filterMap_map]
        · exact congrArg (List.filterMap · _) (funext fun rest => hmake root name rest)
        · intro way hway
          rw [← descend_cons]
          exact hlooked _ (hdown hway)
        · intro way hway
          rw [← descend_cons, ← List.append_cons]
          exact hown _ (hdown hway)
      · rfl

/-! ## Files -/

/-- The files of a directory. -/
def filesFrom (disk : Disk) (path : Path) (place : Place) : Findings Path :=
  ⟨(disk.filesIn place).map (descend path), []⟩

theorem takes_filesAim (disk : Disk) (skipped : List Text) :
    (disk.filesAim skipped).Takes disk disk.filesFrom :=
  fun _ _ _ => rfl

section

variable {root file : Path} {place : Place} {skipped : List Text} {error : Error}

theorem areByName_filesFrom (disk : Disk) (path : Path) (place : Place) :
    AreByName path (fun name => ∃ content, disk.get? (place ++ [name]) = some (.file content))
      (disk.filesFrom path place).taken := by
  rw [filesFrom, filesIn, List.map_map]
  refine (areByName_children disk path place _).congr fun name => ?_
  constructor
  · rintro ⟨entry, hlies, hfile⟩
    cases entry with
    | file content => exact ⟨content, hlies⟩
    | link _ => cases hfile
    | directory => cases hfile
  · rintro ⟨content, hlies⟩
    exact ⟨_, hlies, rfl⟩

theorem mem_taken_contribution_filesFrom :
    file ∈ (disk.contribution disk.filesFrom root).taken ↔
      ∃ place name content, disk.openDirectory root = .ok place
        ∧ disk.get? (place ++ [name]) = some (.file content) ∧ file = descend root [name] := by
  rw [contribution]
  cases hopen : disk.openDirectory root with
  | error error => simp [Findings.refusal]
  | ok place =>
      rw [(areByName_filesFrom disk root place).mem_iff]
      constructor
      · rintro ⟨name, rfl, content, hlies⟩
        exact ⟨place, name, content, rfl, hlies, rfl⟩
      · rintro ⟨_, name, content, hplace, hlies, rfl⟩
        cases hplace
        exact ⟨name, rfl, content, hlies⟩

theorem mem_refused_contribution_filesFrom :
    error ∈ (disk.contribution disk.filesFrom root).refused ↔
      disk.openDirectory root = .error error := by
  rw [contribution]
  cases disk.openDirectory root with
  | ok place => simp [filesFrom]
  | error found => simp [Findings.refusal, eq_comm]

/-- The files are those below a directory, each once, that lie outside skipped directories and are
reached through directories that can be listed. Reported are, each once, the directories on the way
whose paths are too long. -/
structure FindsFiles (disk : Disk) (root : Path) (place : Place) (skipped : List Text)
    (found : Findings Path) : Prop where
  mem_taken : ∀ file, file ∈ found.taken ↔
    ∃ way name content, file = descend root (way ++ [name])
      ∧ (∀ d ∈ way, isSkipped skipped d = false)
      ∧ disk.get? (place ++ way ++ [name]) = some (.file content)
      ∧ ∀ front, front <+: way → IsLookedUp (descend root front)
  nodup_taken : found.taken.Nodup
  mem_refused : ∀ error, error ∈ found.refused ↔
    ∃ way, error = ⟨.nameTooLong, descend root way⟩ ∧ (∀ d ∈ way, isSkipped skipped d = false)
      ∧ disk.get? (place ++ way) = some .directory
      ∧ (∀ front, front <+: way → front ≠ way → IsLookedUp (descend root front))
      ∧ ¬ IsLookedUp (descend root way)
  nodup_refused : found.refused.Nodup

theorem isWay_filesAim_iff {way : List Text} (hlies : disk.get? (place ++ way) = some .directory) :
    IsWay disk (disk.filesAim skipped).enters place way ↔
      ∀ d ∈ way, isSkipped skipped d = false := by
  constructor
  · intro hway d hd
    simpa [filesAim] using hway.enter d hd
  · exact fun hskipped => isWay_of_get? (fun d hd => by simp [filesAim, hskipped d hd]) hlies

theorem findsFiles (hopen : disk.openDirectory root = .ok place) (skipped : List Text) :
    FindsFiles disk root place skipped
      (disk.harvest (disk.filesAim skipped).enters disk.filesFrom disk.depthBound root) where
  mem_taken file := by
    rw [mem_harvest isPart_taken]
    constructor
    · rintro ⟨way, -, hmet, hfile⟩
      obtain ⟨inner, name, content, hinner, hlies, rfl⟩ := mem_taken_contribution_filesFrom.mp hfile
      obtain ⟨rfl, hway, hfronts⟩ := (isMet_and_openDirectory_iff hopen).mp ⟨hmet, hinner⟩
      have hdirectory := get?_of_append (List.cons_ne_nil name []) hlies
      refine ⟨way, name, content, descend_descend .., ?_, hlies, hfronts⟩
      exact (isWay_filesAim_iff hdirectory).mp hway
    · rintro ⟨way, name, content, rfl, hskipped, hlies, hfronts⟩
      have hdirectory := get?_of_append (List.cons_ne_nil name []) hlies
      obtain ⟨hmet, hinner⟩ := (isMet_and_openDirectory_iff hopen).mpr
        ⟨rfl, (isWay_filesAim_iff hdirectory).mpr hskipped, hfronts⟩
      exact ⟨way, length_way_lt_depthBound hdirectory, hmet, mem_taken_contribution_filesFrom.mpr
        ⟨_, name, content, hinner, hlies, (descend_descend ..).symm⟩⟩
  nodup_taken := by
    refine nodup_harvest isPart_taken (fun way => ?_) fun way way' file _ _ hfile hfile' => ?_
    · rw [contribution]
      cases disk.openDirectory (descend root way) with
      | error error => exact .nil
      | ok inner => exact (areByName_filesFrom disk _ inner).nodup
    · obtain ⟨_, name, -, -, -, rfl⟩ := mem_taken_contribution_filesFrom.mp hfile
      obtain ⟨_, name', -, -, -, heq⟩ := mem_taken_contribution_filesFrom.mp hfile'
      rw [descend_descend, descend_descend] at heq
      exact (List.append_inj' (descend_injective heq) rfl).1
  mem_refused error := by
    rw [mem_harvest isPart_refused]
    constructor
    · rintro ⟨way, -, hmet, herror⟩
      obtain ⟨heq, hway, hfronts, hlong⟩ := (isMet_and_error_iff hopen).mp
        ⟨hmet, mem_refused_contribution_filesFrom.mp herror⟩
      have hdirectory := hway.get?_append (ne_nil_of_not_isLookedUp hopen hlong)
      exact ⟨way, heq, (isWay_filesAim_iff hdirectory).mp hway, hdirectory, hfronts, hlong⟩
    · rintro ⟨way, heq, hskipped, hdirectory, hfronts, hlong⟩
      obtain ⟨hmet, herror⟩ := (isMet_and_error_iff hopen).mpr
        ⟨heq, (isWay_filesAim_iff hdirectory).mpr hskipped, hfronts, hlong⟩
      exact ⟨way, length_way_lt_depthBound hdirectory, hmet,
        mem_refused_contribution_filesFrom.mpr herror⟩
  nodup_refused := by
    refine nodup_harvest isPart_refused (fun way => ?_) fun way way' error _ _ herror herror' => ?_
    · rw [contribution]
      cases disk.openDirectory (descend root way) with
      | error error => exact List.nodup_singleton error
      | ok inner => exact .nil
    · have hpath := path_of_openDirectory (mem_refused_contribution_filesFrom.mp herror)
      have hpath' := path_of_openDirectory (mem_refused_contribution_filesFrom.mp herror')
      exact descend_injective (hpath.symm.trans hpath')

/-- Where every directory outside skipped ones can be listed, the files are those of the walk over
the places, and nothing is reported. -/
theorem exploreFiles_eq (hopen : disk.openDirectory root = .ok place)
    (hlooked : ∀ way, (∀ d ∈ way, isSkipped skipped d = false) →
      disk.get? (place ++ way) = some .directory → IsLookedUp (descend root way)) :
    disk.exploreFiles root skipped
      = (disk.walkFiles root skipped).map fun files => ⟨files, []⟩ := by
  have hfinds := findsFiles hopen skipped
  have hways : ∀ way, IsWay disk (disk.filesAim skipped).enters place way →
      IsLookedUp (descend root way) := by
    intro way hway
    by_contra hlong
    have hdirectory := hway.get?_append (ne_nil_of_not_isLookedUp hopen hlong)
    exact hlong (hlooked way ((isWay_filesAim_iff hdirectory).mp hway) hdirectory)
  have htaken : (disk.harvest (disk.filesAim skipped).enters disk.filesFrom disk.depthBound
      root).taken = (disk.filesBelow skipped place).map (descend root) := by
    rw [taken_harvest_eq disk.filesIn (fun path names => some (descend path names))
      (fun path name rest => congrArg some (descend_cons path name rest).symm) hopen hways
      fun way _ => by simp [filesFrom]]
    exact congrFun (List.filterMap_eq_map (f := descend root)) _
  have hrefused : (disk.harvest (disk.filesAim skipped).enters disk.filesFrom disk.depthBound
      root).refused = [] := by
    refine List.eq_nil_iff_forall_not_mem.mpr fun error herror => ?_
    obtain ⟨way, -, hskipped, hdirectory, -, hlong⟩ := (hfinds.mem_refused error).mp herror
    exact hlong (hlooked way hskipped hdirectory)
  rw [exploreFiles, walkFiles, hopen,
    explore_eq_harvest (takes_filesAim disk skipped) (isEnough_of_openDirectory hopen)]
  exact congrArg Except.ok (congrArg₂ Findings.mk htaken hrefused)

/-- An exploration for files finds the files below a directory that can be reached. -/
structure ExploresFiles (disk : Disk) (root : Path) (skipped : List Text) : Prop where
  goesDown : GoesDown disk (disk.filesAim skipped) disk.filesFrom root
  byName : ∀ place, AreByName root
    (fun name => ∃ content, disk.get? (place ++ [name]) = some (.file content))
    (disk.filesFrom root place).taken
  finds : ∀ place, disk.openDirectory root = .ok place →
    ∃ found, disk.exploreFiles root skipped = .ok found
      ∧ FindsFiles disk root place skipped found
  inOneGo : ∀ place, disk.openDirectory root = .ok place →
    (∀ way, (∀ d ∈ way, isSkipped skipped d = false) →
      disk.get? (place ++ way) = some .directory → IsLookedUp (descend root way)) →
    disk.exploreFiles root skipped
      = (disk.walkFiles root skipped).map fun files => ⟨files, []⟩

theorem exploresFiles (disk : Disk) (root : Path) (skipped : List Text) :
    ExploresFiles disk root skipped where
  goesDown := Disk.goesDown (takes_filesAim disk skipped) root
  byName := areByName_filesFrom disk root
  finds _ hopen := ⟨_, explore_eq_harvest (takes_filesAim disk skipped)
    (isEnough_of_openDirectory hopen), findsFiles hopen skipped⟩
  inOneGo _ hopen hlooked := exploreFiles_eq hopen hlooked

end

end Disk

end ResourcePruner
