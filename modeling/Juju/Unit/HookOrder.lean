import Juju.Unit.UnitAgent
import Mathlib.Data.List.Induction

namespace Juju.Unit
open Juju.Base Juju.Lib

/-- How far a unit has come, by the hooks that have run. -/
inductive HookPhase where
  | unborn
  | installing
  /-- The last hook is config-changed, and no charm was upgraded yet. -/
  | configured
  | begun
  | upgraded
  | ending
  deriving DecidableEq

/-- The phase after one more hook, if the hook may come then. -/
def HookPhase.next : HookPhase → HookName → Option HookPhase
  | .unborn, .install => some .installing
  | .installing, .install => some .installing
  | .installing, .configChanged => some .configured
  | .configured, .configChanged => some .configured
  | .configured, .start => some .begun
  | .configured, .upgradeCharm => some .upgraded
  | .configured, .stop => some .ending
  | .begun, .configChanged => some .configured
  | .begun, .upgradeCharm => some .upgraded
  | .begun, .stop => some .ending
  | .upgraded, .configChanged => some .upgraded
  | .upgraded, .upgradeCharm => some .upgraded
  | .upgraded, .stop => some .ending
  | .ending, .stop => some .ending
  | _, _ => none

def HookPhase.after (p : HookPhase) (hooks : List HookName) : Option HookPhase :=
  hooks.foldlM HookPhase.next p

theorem after_append (p : HookPhase) (hooks₁ hooks₂ : List HookName) :
    p.after (hooks₁ ++ hooks₂) = (p.after hooks₁).bind fun q => q.after hooks₂ :=
  List.foldlM_append

/-- The hooks of the attempts to start a unit: config-changed, and start if that goes well. -/
def startAttempts (attempts : List Bool) : List HookName :=
  attempts.flatMap fun started => if started then [.configChanged, .start] else [.configChanged]

/-- The order of a unit's life: it is installed, perhaps in several attempts, started, perhaps in
several attempts, its configuration and its charm change, and it is stopped. -/
structure InOrder (hooks : List HookName) (installs : Nat) (attempts : List Bool)
    (changes : List HookName) (stops : Nat) : Prop where
  split : hooks = List.replicate installs .install ++ startAttempts attempts ++ changes ++
    List.replicate stops .stop
  kinds : ∀ hook ∈ changes, hook = .configChanged ∨ hook = .upgradeCharm
  installed : attempts ≠ [] → installs ≠ 0
  started : changes ≠ [] ∨ stops ≠ 0 → attempts ≠ []

section phases

/-- The hooks that lead to a phase. -/
def HookPhase.Shape (hooks : List HookName) : HookPhase → Prop
  | .unborn => hooks = []
  | .installing => ∃ installs, InOrder hooks (installs + 1) [] [] 0
  | .configured => ∃ installs attempts, InOrder hooks installs (attempts ++ [false]) [] 0
  | .begun => ∃ installs attempts, InOrder hooks installs (attempts ++ [true]) [] 0
  | .upgraded => ∃ installs attempts changes, InOrder hooks installs attempts changes 0 ∧
      changes ≠ []
  | .ending => ∃ installs attempts changes stops, InOrder hooks installs attempts changes (stops + 1)

theorem startAttempts_append (attempts₁ attempts₂ : List Bool) :
    startAttempts (attempts₁ ++ attempts₂) = startAttempts attempts₁ ++ startAttempts attempts₂ :=
  List.flatMap_append

variable {hooks : List HookName} {installs stops : Nat} {attempts : List Bool}
  {changes : List HookName}

theorem inOrder_install (h : InOrder hooks installs [] [] 0) :
    InOrder (hooks ++ [.install]) (installs + 1) [] [] 0 := by
  refine ⟨?_, by simp, by simp, by simp⟩
  have hshape := h.split
  simp only [startAttempts, List.flatMap_nil, List.append_nil, List.replicate_zero] at hshape ⊢
  rw [hshape, List.replicate_succ']

/-- One more attempt to start the unit begins. -/
theorem inOrder_attempt (h : InOrder hooks installs attempts [] 0) (hinstalls : installs ≠ 0) :
    InOrder (hooks ++ [.configChanged]) installs (attempts ++ [false]) [] 0 := by
  refine ⟨?_, by simp, fun _ => hinstalls, fun _ => by simp⟩
  rw [h.split, startAttempts_append]
  simp [startAttempts]

/-- The attempt goes on to the start hook. -/
theorem inOrder_start (h : InOrder hooks installs (attempts ++ [false]) [] 0) :
    InOrder (hooks ++ [.start]) installs (attempts ++ [true]) [] 0 := by
  refine ⟨?_, by simp, fun _ => h.installed (by simp), fun _ => by simp⟩
  rw [h.split, startAttempts_append, startAttempts_append]
  simp [startAttempts]

theorem inOrder_change (h : InOrder hooks installs attempts changes 0) (hattempts : attempts ≠ [])
    (hook : HookName) (hhook : hook = .configChanged ∨ hook = .upgradeCharm) :
    InOrder (hooks ++ [hook]) installs attempts (changes ++ [hook]) 0 := by
  refine ⟨?_, fun name hname => ?_, h.installed, fun _ => hattempts⟩
  · rw [h.split]
    simp
  · rcases List.mem_append.mp hname with hname | hname
    · exact h.kinds name hname
    · rw [List.mem_singleton.mp hname]
      exact hhook

theorem inOrder_stop (h : InOrder hooks installs attempts changes stops) (hattempts : attempts ≠ []) :
    InOrder (hooks ++ [.stop]) installs attempts changes (stops + 1) := by
  refine ⟨?_, h.kinds, h.installed, fun _ => hattempts⟩
  rw [h.split, List.replicate_succ', List.append_assoc _ (List.replicate stops _)]

theorem next_shape (p q : HookPhase) (hook : HookName) (hp : p.Shape hooks)
    (hq : p.next hook = some q) : q.Shape (hooks ++ [hook]) := by
  cases p with
  | unborn =>
    cases hook <;> cases hq
    obtain rfl : hooks = [] := hp
    exact ⟨0, inOrder_install ⟨rfl, by simp, by simp, by simp⟩⟩
  | installing =>
    obtain ⟨installs, h⟩ := hp
    cases hook <;> cases hq
    · exact ⟨_, inOrder_install h⟩
    · exact ⟨_, [], inOrder_attempt h (by simp)⟩
  | configured =>
    obtain ⟨installs, attempts, h⟩ := hp
    cases hook <;> cases hq
    · exact ⟨_, _, inOrder_attempt h (h.installed (by simp))⟩
    · exact ⟨_, _, inOrder_start h⟩
    · exact ⟨_, _, _, 0, inOrder_stop h (by simp)⟩
    · exact ⟨_, _, _, inOrder_change h (by simp) _ (Or.inr rfl), by simp⟩
  | begun =>
    obtain ⟨installs, attempts, h⟩ := hp
    cases hook <;> cases hq
    · exact ⟨_, _, inOrder_attempt h (h.installed (by simp))⟩
    · exact ⟨_, _, _, 0, inOrder_stop h (by simp)⟩
    · exact ⟨_, _, _, inOrder_change h (by simp) _ (Or.inr rfl), by simp⟩
  | upgraded =>
    obtain ⟨installs, attempts, changes, h, hchanges⟩ := hp
    have hattempts := h.started (Or.inl hchanges)
    cases hook <;> cases hq
    · exact ⟨_, _, _, inOrder_change h hattempts _ (Or.inl rfl), by simp⟩
    · exact ⟨_, _, _, 0, inOrder_stop h hattempts⟩
    · exact ⟨_, _, _, inOrder_change h hattempts _ (Or.inr rfl), by simp⟩
  | ending =>
    obtain ⟨installs, attempts, changes, stops, h⟩ := hp
    cases hook <;> cases hq
    exact ⟨_, _, _, _, inOrder_stop h (h.started (Or.inr (by simp)))⟩

theorem after_shape (p : HookPhase) (h : HookPhase.unborn.after hooks = some p) :
    p.Shape hooks := by
  induction hooks using List.reverseRecOn generalizing p with
  | nil =>
    cases h
    rfl
  | append_singleton hooks hook ih =>
    rw [after_append] at h
    obtain ⟨q, hq, hnext⟩ := Option.bind_eq_some_iff.mp h
    have hlast : q.next hook = some p := by
      simpa [HookPhase.after] using hnext
    exact next_shape q p hook (ih q hq) hlast

/-- Hooks that lead to a phase came in the order of a unit's life. -/
theorem after_inOrder (p : HookPhase) (h : HookPhase.unborn.after hooks = some p) :
    ∃ installs attempts changes stops, InOrder hooks installs attempts changes stops := by
  have hshape := after_shape p h
  cases p with
  | unborn =>
    obtain rfl : hooks = [] := hshape
    exact ⟨0, [], [], 0, rfl, by simp, by simp, by simp⟩
  | installing =>
    obtain ⟨installs, h⟩ := hshape
    exact ⟨_, _, _, _, h⟩
  | configured =>
    obtain ⟨installs, attempts, h⟩ := hshape
    exact ⟨_, _, _, _, h⟩
  | begun =>
    obtain ⟨installs, attempts, h⟩ := hshape
    exact ⟨_, _, _, _, h⟩
  | upgraded =>
    obtain ⟨installs, attempts, changes, h, -⟩ := hshape
    exact ⟨_, _, _, _, h⟩
  | ending =>
    obtain ⟨installs, attempts, changes, stops, h⟩ := hshape
    exact ⟨_, _, _, _, h⟩

end phases

end Juju.Unit
