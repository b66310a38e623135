import Mathlib.Logic.Function.Basic

namespace Juju.Lib

/-- The files by their paths, and what else a program may change. -/
structure World (X : Type) where
  files : String → Option String
  rest : X

/-- What a program does to the world, one effect at a time. -/
inductive Effect (X : Type) where
  /-- `open(path, "w")`. -/
  | openWrite (path : String)
  /-- `open(path, "a")`. -/
  | openAppend (path : String)
  /-- A text that is written to a file that is open, up to the closing of the file. -/
  | write (path text : String)
  | rename (source target : String)
  | change (f : X → X)

variable {X : Type}

def World.setFile (w : World X) (path : String) (content : Option String) : World X :=
  { w with files := Function.update w.files path content }

def World.content (w : World X) (path : String) : String := (w.files path).getD ""

def Effect.run (w : World X) : Effect X → World X
  | .openWrite path => w.setFile path (some "")
  | .openAppend path => w.setFile path (some (w.content path))
  | .write path text => w.setFile path (some (w.content path ++ text))
  | .rename source target => (w.setFile target (w.files source)).setFile source none
  | .change f => { w with rest := f w.rest }

/-- What a process leaves that dies in the middle of an effect: nothing has been done, or a part of
the text has come to the file, which may be all of it. -/
inductive Effect.Leaves (w : World X) : Effect X → World X → Prop where
  | nothing (e : Effect X) : Leaves w e w
  | part (path written lost : String) :
      Leaves w (.write path (written ++ lost)) (w.setFile path (some (w.content path ++ written)))

/-- What a process leaves that dies after `point` effects of a program, in the next one. -/
def Dies : List (Effect X) → Nat → World X → World X → Prop
  | [], _, w, w' => w' = w
  | e :: _, 0, w, w' => e.Leaves w w'
  | e :: es, point + 1, w, w' => Dies es point (e.run w) w'

/-- The effect is on other files, if any. -/
def Effect.Spares (path : String) : Effect X → Prop
  | .openWrite p | .openAppend p | .write p _ => p ≠ path
  | .rename source target => source ≠ path ∧ target ≠ path
  | .change _ => True

section files

variable (w w' : World X) (path other : String)

@[simp] theorem setFile_same (content : Option String) :
    (w.setFile path content).files path = content := by
  simp [World.setFile]

theorem setFile_other (content : Option String) (h : other ≠ path) :
    (w.setFile other content).files path = w.files path := by
  simp [World.setFile, Function.update_of_ne h.symm]

@[simp] theorem setFile_content (content : Option String) :
    (w.setFile path content).content path = content.getD "" := by
  simp [World.content]

theorem spares_run (e : Effect X) (h : e.Spares path) : (e.run w).files path = w.files path := by
  cases e with
  | openWrite p => exact setFile_other w path p _ h
  | openAppend p => exact setFile_other w path p _ h
  | write p text => exact setFile_other w path p _ h
  | rename source target =>
    exact (setFile_other _ path source _ h.1).trans (setFile_other w path target _ h.2)
  | change f => rfl

theorem spares_leaves (e : Effect X) (h : e.Spares path) (hleaves : e.Leaves w w') :
    w'.files path = w.files path := by
  cases hleaves with
  | nothing => rfl
  | part p written lost => exact setFile_other w path p _ h

/-- A program that spares a file leaves it as it was, wherever it dies. -/
theorem spares_dies (program : List (Effect X)) (h : ∀ e ∈ program, e.Spares path) (point : Nat)
    (hdies : Dies program point w w') : w'.files path = w.files path := by
  induction program generalizing point w with
  | nil =>
    obtain rfl := hdies
    rfl
  | cons e program ih =>
    obtain ⟨he, hrest⟩ := List.forall_mem_cons.mp h
    cases point with
    | zero => exact spares_leaves w w' path e he hdies
    | succ point => exact (ih (e.run w) hrest point hdies).trans (spares_run w path e he)

end files

/-- A file that is opened, which empties it, and then written. -/
def overwriteFile (path text : String) : List (Effect X) := [.openWrite path, .write path text]

/-- A file that is written beside the one whose place it takes. -/
def replaceFile (path text : String) : List (Effect X) :=
  overwriteFile (path ++ "~") text ++ [.rename (path ++ "~") path]

theorem tilde_ne (path : String) : path ++ "~" ≠ path := by
  intro h
  have hlength := congrArg String.length h
  simp at hlength

section programs

variable (w w' : World X) (path text : String) (after : List (Effect X))

/-- Before the file is written, it is empty; when the process dies, part of it may be there. -/
theorem overwriteFile_part (written lost : String) (h : text = written ++ lost) :
    Dies (overwriteFile path text ++ after) 1 w ((w.setFile path (some "")).setFile path
      (some written)) := by
  subst h
  have hpart := Effect.Leaves.part (w := w.setFile path (some "")) path written lost
  rw [setFile_content, Option.getD_some, String.empty_append] at hpart
  exact hpart

/-- A process that does not die while it writes leaves the old file or the new one. -/
theorem overwriteFile_dies (hafter : ∀ e ∈ after, e.Spares path) (point : Nat) (hpoint : point ≠ 1)
    (h : Dies (overwriteFile path text ++ after) point w w') :
    w'.files path = w.files path ∨ w'.files path = some text := by
  rcases point with _ | _ | point
  · cases h
    exact Or.inl rfl
  · exact absurd rfl hpoint
  · have hspared := spares_dies _ w' path after hafter point h
    rw [hspared]
    simp [Effect.run]

/-- The file that takes the other's place is whole, wherever the process dies. -/
theorem replaceFile_dies (point : Nat) (h : Dies (replaceFile path text) point w w') :
    w'.files path = w.files path ∨ w'.files path = some text := by
  have hne := tilde_ne path
  have hopened := spares_run w path (.openWrite (path ++ "~")) hne
  have hwritten := spares_run (Effect.run w (.openWrite (path ++ "~"))) path
    (.write (path ++ "~") text) hne
  rcases point with _ | _ | _ | point
  · cases h
    exact Or.inl rfl
  · have hspared : (Effect.write (path ++ "~") text : Effect X).Spares path := hne
    exact Or.inl ((spares_leaves _ w' path _ hspared h).trans hopened)
  · cases h
    exact Or.inl (hwritten.trans hopened)
  · obtain rfl := h
    simp [Effect.run, setFile_other _ path _ _ hne]

end programs

end Juju.Lib
