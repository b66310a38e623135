import Juju.Lib.FileTree
import Mathlib.Logic.Function.Basic

namespace Juju.Lib.FileSystem

/-- The permissions of what has just been made. -/
def freshPerm : Perm := 0o600

section changes

variable (fs : FileSystem) (start : Location) (names : List String)

def set (loc : Location) (node : Option Node) : FileSystem := Function.update fs loc node

/-- Where the names lead from `start`. -/
def reach : Option Location := fs.resolve false maxLinks start names

/-- `os.path.exists`, of the names from `start`. -/
def existsAt : Bool := (fs.reach start names).isSome

def isdirAt : Bool := (fs.reach start names).any fs.isDirectory

/-- The place in its directory that the last name stands for. -/
def place : Option Location :=
  match names.getLast? with
  | none => none
  | some name =>
    (fs.reach start names.dropLast).bind fun dir =>
      if fs.isDirectory dir then some (dir ++ [name]) else none

def remove : Option FileSystem :=
  (fs.place start names).bind fun loc =>
    match fs loc with
    | some (.leaf _) => some (fs.set loc none)
    | _ => none

/-- A new node, where there is none. -/
def make (node : Node) : Option FileSystem :=
  (fs.place start names).bind fun loc =>
    if fs loc = none then some (fs.set loc (some node)) else none

def symlink (source : String) : Option FileSystem := fs.make start names (.leaf (.link source))

def mkdir : Option FileSystem := fs.make start names (.directory freshPerm)

/-- A file is opened with `"wb"`, and the content is written. -/
def write (content : String) : Option FileSystem :=
  (fs.resolve true maxLinks start names).bind fun loc =>
    match fs loc with
    | none => some (fs.set loc (some (.leaf (.file freshPerm content))))
    | some (.leaf (.file perm _)) => some (fs.set loc (some (.leaf (.file perm content))))
    | some _ => none

def chmod (perm : Perm) : Option FileSystem :=
  (fs.reach start names).bind fun loc =>
    match fs loc with
    | some (.directory _) => some (fs.set loc (some (.directory perm)))
    | some (.leaf (.file _ content)) => some (fs.set loc (some (.leaf (.file perm content))))
    | some (.leaf _) => some fs
    | none => none

end changes

section frames

variable {fs fs' : FileSystem} {start loc : Location} {names : List String}

@[simp] theorem set_same (node : Option Node) : fs.set loc node loc = node := by
  simp [set]

theorem set_other (node : Option Node) (other : Location) (h : other ≠ loc) :
    fs.set loc node other = fs other := by
  simp [set, h]

@[simp] theorem set_set (node node' : Option Node) :
    (fs.set loc node).set loc node' = fs.set loc node' := by
  simp [set]

theorem isDirectory_iff : fs.isDirectory loc = true ↔ ∃ perm, fs loc = some (.directory perm) := by
  unfold isDirectory
  cases h : fs loc with
  | none => simp
  | some node =>
    cases node with
    | directory perm => simp
    | leaf l => simp

/-- Directories stay directories, and links stay what they are, but for what stands at `spots`. -/
structure Spares (fs fs' : FileSystem) (spots : List Location) : Prop where
  directories : ∀ loc, fs.isDirectory loc = true → fs'.isDirectory loc = true
  links : ∀ loc target, loc ∉ spots →
    (fs' loc = some (.leaf (.link target)) ↔ fs loc = some (.leaf (.link target)))

theorem spares_refl (spots : List Location) : Spares fs fs spots :=
  ⟨fun _ h => h, fun _ _ _ => Iff.rfl⟩

theorem Spares.trans {fs'' : FileSystem} {spots : List Location} (h : Spares fs fs' spots)
    (h' : Spares fs' fs'' spots) : Spares fs fs'' spots where
  directories loc hloc := h'.directories loc (h.directories loc hloc)
  links loc target hloc := (h'.links loc target hloc).trans (h.links loc target hloc)

/-- A node that is no directory takes the place of one that is none, and neither is a link. -/
theorem set_spares (node : Option Node) (spots : List Location)
    (hdirectory : fs.isDirectory loc = true → ∃ perm, node = some (.directory perm))
    (hlinks : loc ∉ spots → ∀ target,
      node ≠ some (.leaf (.link target)) ∧ fs loc ≠ some (.leaf (.link target))) :
    Spares fs (fs.set loc node) spots where
  directories other hother := by
    by_cases he : other = loc
    · subst he
      obtain ⟨perm, hnode⟩ := hdirectory hother
      exact isDirectory_iff.mpr ⟨perm, by rw [set_same, hnode]⟩
    · simpa [isDirectory, set_other _ _ he] using hother
  links other target hother := by
    by_cases he : other = loc
    · subst he
      obtain ⟨hnode, hfs⟩ := hlinks hother target
      simp [hnode, hfs]
    · rw [set_other _ _ he]

theorem write_spares (content : String) (h : fs.write start names content = some fs') :
    Spares fs fs' [] := by
  obtain ⟨loc, -, hset⟩ := Option.bind_eq_some_iff.mp h
  cases hloc : fs loc with
  | none =>
    simp only [hloc, Option.some.injEq] at hset
    subst hset
    exact set_spares _ [] (by simp [isDirectory, hloc]) (by simp [hloc])
  | some node =>
    cases node with
    | directory perm => simp [hloc] at hset
    | leaf l =>
      cases l with
      | link target => simp [hloc] at hset
      | special => simp [hloc] at hset
      | file perm old =>
        simp only [hloc, Option.some.injEq] at hset
        subst hset
        exact set_spares _ [] (by simp [isDirectory, hloc]) (by simp [hloc])

theorem chmod_spares (perm : Perm) (h : fs.chmod start names perm = some fs') :
    Spares fs fs' [] := by
  obtain ⟨loc, -, hset⟩ := Option.bind_eq_some_iff.mp h
  cases hloc : fs loc with
  | none => simp [hloc] at hset
  | some node =>
    cases node with
    | directory old =>
      simp only [hloc, Option.some.injEq] at hset
      subst hset
      exact set_spares _ [] (by simp) (by simp [hloc])
    | leaf l =>
      cases l with
      | link target =>
        simp only [hloc, Option.some.injEq] at hset
        exact hset ▸ spares_refl []
      | special =>
        simp only [hloc, Option.some.injEq] at hset
        exact hset ▸ spares_refl []
      | file old content =>
        simp only [hloc, Option.some.injEq] at hset
        subst hset
        exact set_spares _ [] (by simp [isDirectory, hloc]) (by simp [hloc])

theorem make_eq_some (node : Node) (h : fs.make start names node = some fs') :
    ∃ loc, fs.place start names = some loc ∧ fs loc = none ∧ fs' = fs.set loc (some node) := by
  obtain ⟨loc, hplace, hset⟩ := Option.bind_eq_some_iff.mp h
  split at hset
  · exact ⟨loc, hplace, by assumption, (Option.some.inj hset).symm⟩
  · simp at hset

theorem mkdir_spares (h : fs.mkdir start names = some fs') : Spares fs fs' [] := by
  obtain ⟨loc, -, hnone, rfl⟩ := make_eq_some _ h
  exact set_spares _ [] (by simp) (by simp [hnone])

theorem symlink_spares (source : String) (hplace : fs.place start names = some loc)
    (h : fs.symlink start names source = some fs') : Spares fs fs' [loc] := by
  obtain ⟨other, hother, hnone, rfl⟩ := make_eq_some _ h
  obtain rfl := Option.some.inj (hplace.symm.trans hother)
  exact set_spares _ _ (by simp [isDirectory, hnone]) (by simp)

theorem remove_spares (hplace : fs.place start names = some loc)
    (h : fs.remove start names = some fs') : Spares fs fs' [loc] := by
  obtain ⟨other, hother, hset⟩ := Option.bind_eq_some_iff.mp h
  obtain rfl := Option.some.inj (hplace.symm.trans hother)
  cases hloc : fs loc with
  | none => simp [hloc] at hset
  | some node =>
    cases node with
    | directory perm => simp [hloc] at hset
    | leaf l =>
      simp only [hloc, Option.some.injEq] at hset
      subst hset
      exact set_spares _ _ (by simp [isDirectory, hloc]) (by simp)

end frames

section opens

variable (fs : FileSystem) (start : Location)

/-- The names lead from `start` through directories only. -/
def Opens (names : List String) : Prop :=
  (∀ name ∈ names, IsFileName name) ∧ ∀ p, p <+: names → fs.isDirectory (start ++ p) = true

variable {fs start} {front : List String} {name : String}

theorem opens_cons (h : fs.Opens start (name :: front)) : fs.Opens (start ++ [name]) front := by
  refine ⟨fun other hother => h.1 other (List.mem_cons_of_mem _ hother), fun p hp => ?_⟩
  have hpath := h.2 (name :: p) (by simpa using hp)
  simpa [List.append_assoc] using hpath

/-- Names that lead through directories are followed one after the other. -/
theorem follow_opens (create : Bool) (again : Location → List String → Option Location)
    (rest : List String) (h : fs.Opens start front) :
    fs.follow create again start (front ++ rest) = fs.follow create again (start ++ front) rest := by
  induction front generalizing start with
  | nil => simp
  | cons name front ih =>
    have hstart : fs.isDirectory start = true := by simpa using h.2 [] (by simp)
    obtain ⟨perm, hperm⟩ := isDirectory_iff.mp (h.2 [name] (by simp))
    obtain ⟨⟨hne, -⟩, hdot, hdots⟩ := h.1 name (by simp)
    have hrest := ih (opens_cons h)
    rw [List.append_assoc, List.singleton_append] at hrest
    rw [← hrest, List.cons_append, follow]
    simp [hstart, hne, hdot, hdots, hperm]

theorem reach_opens (h : fs.Opens start front) : fs.reach start front = some (start ++ front) := by
  have hfollow (again) := follow_opens false again [] h
  simp only [List.append_nil] at hfollow
  unfold reach maxLinks resolve
  rw [hfollow, follow]

theorem place_opens (h : fs.Opens start front) :
    fs.place start (front ++ [name]) = some (start ++ (front ++ [name])) := by
  have hdir := h.2 front List.prefix_rfl
  simp [place, reach_opens h, hdir]

/-- Behind directories, a name that is no link stands for what is there. -/
theorem resolve_opens (create : Bool) (h : fs.Opens start front) (hname : IsFileName name)
    (hlink : ∀ target, fs (start ++ (front ++ [name])) ≠ some (.leaf (.link target))) :
    fs.resolve create maxLinks start (front ++ [name]) =
      if fs (start ++ (front ++ [name])) = none ∧ create = false then none
      else some (start ++ (front ++ [name])) := by
  have hdir := h.2 front List.prefix_rfl
  obtain ⟨⟨hne, -⟩, hdot, hdots⟩ := hname
  unfold maxLinks resolve
  rw [follow_opens create _ [name] h, follow]
  rw [List.append_assoc]
  simp only [hdir, Bool.true_eq_false, if_false, hne, hdot, hdots, or_self]
  cases hnode : fs (start ++ (front ++ [name])) with
  | none => cases create <;> simp
  | some node =>
    cases node with
    | directory perm => simp [follow]
    | leaf l =>
      cases l with
      | link target => exact absurd hnode (hlink target)
      | file perm content => simp [follow]
      | special => simp [follow]

theorem opens_set (node : Option Node) (h : fs.Opens start front) :
    (fs.set (start ++ (front ++ [name])) node).Opens start front := by
  refine ⟨h.1, fun p hp => ?_⟩
  have hne : start ++ p ≠ start ++ (front ++ [name]) := by
    intro he
    have hlength := congrArg List.length (List.append_cancel_left he)
    have hle := hp.length_le
    simp only [List.length_append, List.length_singleton] at hlength
    omega
  have hdir := h.2 p hp
  simpa [isDirectory, set_other _ _ hne] using hdir

theorem opens_spares {fs' : FileSystem} {spots : List Location} (h : fs.Opens start front)
    (hspares : Spares fs fs' spots) : fs'.Opens start front :=
  ⟨h.1, fun p hp => hspares.directories _ (h.2 p hp)⟩

end opens

section single

/- What the changes do to the name that stands behind the directories of `front`. -/
variable {fs : FileSystem} {start : Location} {front : List String} {name : String}
  (h : fs.Opens start front) (hname : IsFileName name)
include h hname

theorem reach_none (hnone : fs (start ++ (front ++ [name])) = none) :
    fs.reach start (front ++ [name]) = none := by
  rw [reach, resolve_opens false h hname (by simp [hnone]), if_pos ⟨hnone, rfl⟩]

theorem reach_node (node : Node) (hnode : fs (start ++ (front ++ [name])) = some node)
    (hlink : ∀ target, node ≠ .leaf (.link target)) :
    fs.reach start (front ++ [name]) = some (start ++ (front ++ [name])) := by
  rw [reach, resolve_opens false h hname (by simpa [hnode] using hlink), if_neg (by simp [hnode])]

theorem chmod_directory (old perm : Perm)
    (hnode : fs (start ++ (front ++ [name])) = some (.directory old)) :
    fs.chmod start (front ++ [name]) perm =
      some (fs.set (start ++ (front ++ [name])) (some (.directory perm))) := by
  simp [chmod, reach_node h hname _ hnode (by simp), hnode]

theorem chmod_file (old perm : Perm) (content : String)
    (hnode : fs (start ++ (front ++ [name])) = some (.leaf (.file old content))) :
    fs.chmod start (front ++ [name]) perm =
      some (fs.set (start ++ (front ++ [name])) (some (.leaf (.file perm content)))) := by
  simp [chmod, reach_node h hname _ hnode (by simp), hnode]

omit hname in
theorem make_none (node : Node) (hnone : fs (start ++ (front ++ [name])) = none) :
    fs.make start (front ++ [name]) node =
      some (fs.set (start ++ (front ++ [name])) (some node)) := by
  simp [make, place_opens h, hnone]

omit hname in
theorem remove_leaf (l : Leaf) (hnode : fs (start ++ (front ++ [name])) = some (.leaf l)) :
    fs.remove start (front ++ [name]) = some (fs.set (start ++ (front ++ [name])) none) := by
  simp [remove, place_opens h, hnode]

/-- A file is made, or overwritten. -/
theorem write_file (content : String)
    (hnode : fs (start ++ (front ++ [name])) = none ∨
      ∃ perm old, fs (start ++ (front ++ [name])) = some (.leaf (.file perm old))) :
    ∃ perm, fs.write start (front ++ [name]) content =
      some (fs.set (start ++ (front ++ [name])) (some (.leaf (.file perm content)))) := by
  rcases hnode with hnone | ⟨perm, old, hold⟩
  · exact ⟨freshPerm, by simp [write, resolve_opens true h hname, hnone]⟩
  · exact ⟨perm, by simp [write, resolve_opens true h hname, hold]⟩

end single

end Juju.Lib.FileSystem
