import Juju.Hooks.Invoker
import Juju.State.ContextIsolation

namespace Juju.Hooks
open Juju.Base Juju.Lib Juju.State

/-- The settings nodes after the changes. -/
def replay (contents : String → Option (Dict String String)) (changes : List NodeChange) :
    String → Option (Dict String String) :=
  changes.foldl (fun contents change =>
    match change with
    | .others path content => Function.update contents path content
    | .flushed _ path content => Function.update contents path content) contents

def NodeChange.byOthers : NodeChange → Option (String × Option (Dict String String))
  | .others path content => some (path, content)
  | .flushed .. => none

/-- The relation that was flushed. -/
def NodeChange.ident? : NodeChange → Option String
  | .others .. => none
  | .flushed ident _ _ => some ident

def HookEvent.byOthers : HookEvent → Option (String × Option (Dict String String))
  | .changeNode path content => some (path, content)
  | _ => none

def HookEvent.exit? : HookEvent → Option ProcessReason
  | .exited reason => some reason
  | _ => none

/-- How the process has exited, if it has. -/
def exitOf (events : List HookEvent) : Option ProcessReason := events.findSome? HookEvent.exit?

/-- Every command is answered before the process exits. -/
def Answered (events : List HookEvent) : Prop :=
  ∀ before c after, events = before ++ .command c :: after → exitOf before = none

/-- The calls on the context that a command makes, if none raises. -/
def HookCommand.calls : HookCommand → List (ContextCall String String)
  | .relationGet _ unit settingName => [getCall unit settingName]
  | .relationSet _ data => data.entries.map itemCall

def HookRelations.isFor (h : HookRelations) (ident : String) (c : HookCommand) : Bool :=
  match h.contextOf c.relationId with
  | .ok i => i = ident
  | .error _ => false

/-- What the context of a relation has to do with, until the process exits. -/
def seenBy (h : HookRelations) (ident : String) :
    List HookEvent → List (ContextEvent String String)
  | [] => []
  | .command c :: events =>
    (if h.isFor ident c then c.calls.map .call else []) ++ seenBy h ident events
  | .changeNode path content :: events => .changeNode path content :: seenBy h ident events
  | .exited _ :: _ => []
  | .cleanup _ :: events => seenBy h ident events

/-- What the context of the relation is to show, knowing of the hook's commands only those that
are for it. -/
def viewOf (t : InternalTopology) (k : TextKind) (h : HookRelations)
    (contents : String → Option (Dict String String)) (ident : String) (r : UnitRelationState)
    (events : List HookEvent) : ContextView String String String :=
  ((newView contents).run t k r byName "" (seenBy h ident events)).1

/-- The settings node of the unit in the relation is given the merge of what it had at the first
access, what the hook has made of that, and what it has now. A hook whose writes have all failed
leaves it as it is. -/
def WrittenBack (t : InternalTopology) (k : TextKind) (r : UnitRelationState) (v : ContextView String String String)
    (current : String → Option (Dict String String)) (path : String)
    (content : Option (Dict String String)) : Prop :=
  v.written = true ∧ ∃ own data, resolveUnit t r none = .ok own ∧
    unitSettingsPath t k r own = .ok path ∧ content = some data ∧
    ((∃ first, v.seen own = some first ∧ (data.lookup ·) =
        threeWay first (overlay first v.edits) (((current path).getD ∅).lookup ·)) ∨
      v.edits = [] ∧ (data.lookup ·) = (((current path).getD ∅).lookup ·))

section view

variable {t : InternalTopology} {k : TextKind} {r : UnitRelationState} (v : ContextView String String String)

theorem view_run_append (before after : List (ContextEvent String String)) :
    (v.run t k r byName "" (before ++ after)).1 = ((v.run t k r byName "" before).1.run t k r byName "" after).1 := by
  induction before generalizing v with
  | nil => rfl
  | cons e before ih => exact ih (v.event t k r byName "" e).1

theorem itemCall_edit (item : Sigma fun _ : String => String) :
    ∃ edits, ∀ v : ContextView String String String, v.call t k r byName "" (itemCall item) = v.edit t k r byName edits := by
  unfold itemCall
  split
  · exact ⟨[.remove item.1], fun v => rfl⟩
  · exact ⟨[.put item.1 item.2], fun v => rfl⟩

theorem access_error (e : ContextError) (h : (v.access t k r byName none).2 = .error e) :
    v.access t k r byName none = (v, .error e) := by
  unfold ContextView.access at h ⊢
  cases hunit : resolveUnit t r none with
  | error e' =>
    rw [hunit] at h
    rw [← h]
  | ok own =>
    rw [hunit] at h
    cases hseen : v.seen (byName own) with
    | some first => simp [hseen] at h
    | none =>
      simp only [hseen] at h ⊢
      cases hpath : unitSettingsPath t k r own with
      | error e' =>
        rw [hpath] at h
        rw [← h]
      | ok path =>
        simp only [hpath] at h ⊢
        cases hcontent : v.contents path with
        | none =>
          rw [hcontent] at h
          rw [← h]
        | some data => simp [hcontent] at h

/-- After a write that raises, no write changes anything. -/
theorem edit_raised (edits edits' : List (Edit String String)) (e : ContextError)
    (h : (v.edit t k r byName edits).2 = .raised e) :
    ((v.edit t k r byName edits).1.edit t k r byName edits').1 = (v.edit t k r byName edits).1 := by
  have hfailed (edits : List (Edit String String)) (e' : ContextError)
      (h' : (ContextView.access t k r byName { v with written := true } none).2 = .error e') :
      v.edit t k r byName edits = ({ v with written := true }, .raised e') ∧
        ContextView.edit t k r byName { v with written := true } edits =
          ({ v with written := true }, .raised e') := by
    unfold ContextView.edit
    rw [access_error _ e' h']
    exact ⟨rfl, rfl⟩
  cases hin : (ContextView.access t k r byName { v with written := true } none).2 with
  | error e' =>
    rw [(hfailed edits e' hin).1]
    rw [(hfailed edits' e' hin).2]
  | ok found =>
    unfold ContextView.edit at h
    generalize ContextView.access t k r byName { v with written := true } none = out at h hin
    obtain ⟨v', result⟩ := out
    obtain rfl : result = .ok found := hin
    exact absurd h (by simp)

theorem items_stuck (items : List (Sigma fun _ : String => String))
    (h : ∀ edits, (v.edit t k r byName edits).1 = v) :
    (v.run t k r byName "" (items.map fun item => .call (itemCall item))).1 = v := by
  induction items with
  | nil => rfl
  | cons item items ih =>
    obtain ⟨edits, hedits⟩ := itemCall_edit (t := t) (k := k) (r := r) item
    have hone : (v.event t k r byName "" (.call (itemCall item))).1 = v := by
      show (v.call t k r byName "" (itemCall item)).1 = v
      rw [hedits, h]
    rw [List.map_cons, ContextView.run]
    show (ContextView.run t k r byName "" (v.event t k r byName "" (.call (itemCall item))).1 _).1 = v
    rw [hone]
    exact ih

/-- A first access of the own unit, or the one that there was. -/
theorem access_seen (own : String) (first : String → Option String)
    (h : (v.access t k r byName none).2 = .ok (own, first)) :
    v.seen own = some first ∨ v.seen own = none := by
  unfold ContextView.access at h
  cases hunit : resolveUnit t r none with
  | error e => simp [hunit] at h
  | ok own' =>
    simp only [hunit] at h
    cases hseen : v.seen (byName own') with
    | some first' =>
      simp only [hseen, Except.ok.injEq, Prod.mk.injEq] at h
      obtain ⟨rfl, rfl⟩ := h
      exact Or.inl hseen
    | none =>
      simp only [hseen] at h
      cases hpath : unitSettingsPath t k r own' with
      | error e => simp [hpath] at h
      | ok path =>
        simp only [hpath] at h
        cases hcontent : v.contents path with
        | none => simp [hcontent] at h
        | some data =>
          simp only [hcontent, Except.ok.injEq, Prod.mk.injEq] at h
          exact Or.inr (h.1 ▸ hseen)

end view

section commands

variable {t : InternalTopology} {k : TextKind} {r : UnitRelationState} {x : RelationHookContext String String}
  {v : ContextView String String String}

/-- A `relation-set` that stops at an item that raises is as if it went on. -/
theorem setItems_follows (items : List (Sigma fun _ : String => String)) (h : Follows t k r byName (fun _ => True) x v) :
    Follows t k r byName (fun _ => True) (setItems t k r x items).1
        (v.run t k r byName "" (items.map fun item => .call (itemCall item))).1 ∧
      (setItems t k r x items).1.contents = x.contents := by
  induction items generalizing x v with
  | nil => exact ⟨h, rfl⟩
  | cons item items ih =>
    obtain ⟨hcall, hresult⟩ :=
      call_follows (distinct_byName t r) "" (itemCall item) (fun _ _ => trivial) h
    have hcontents := call_contents (t := t) (k := k) (r := r) (x := x) "" (itemCall item)
    unfold setItems
    simp only [List.map_cons, ContextView.run, ContextView.event]
    cases hout : contextCall t k r "" x (itemCall item) with
    | mk x' result =>
      simp only [hout] at hcall hresult hcontents
      cases result with
      | raised e =>
        obtain ⟨edits, hedits⟩ := itemCall_edit (t := t) (k := k) (r := r) item
        have hstuck (edits' : List (Edit String String)) :
            ((v.call t k r byName "" (itemCall item)).1.edit t k r byName edits').1 =
              (v.call t k r byName "" (itemCall item)).1 := by
          rw [hedits] at hresult ⊢
          exact edit_raised v edits edits' e hresult.symm
        exact ⟨(items_stuck _ items hstuck).symm ▸ hcall, hcontents⟩
      | settings settings =>
        obtain ⟨hrest, hsame⟩ := ih hcall
        exact ⟨hrest, hsame.trans hcontents⟩
      | value value =>
        obtain ⟨hrest, hsame⟩ := ih hcall
        exact ⟨hrest, hsame.trans hcontents⟩
      | done =>
        obtain ⟨hrest, hsame⟩ := ih hcall
        exact ⟨hrest, hsame.trans hcontents⟩

variable (rel : HookRelations) (s : HookRun) (c : HookCommand)

theorem respond_follows (h : Follows t k r byName (fun _ => True) x v) :
    Follows t k r byName (fun _ => True) (respond t k r x c).1 (v.run t k r byName "" (c.calls.map .call)).1 ∧
      (respond t k r x c).1.contents = x.contents := by
  cases c with
  | relationGet relationId unit settingName =>
    have hcall :=
      call_follows (distinct_byName t r) "" (getCall unit settingName) (fun _ _ => trivial) h
    exact ⟨hcall.1, call_contents "" (getCall unit settingName)⟩
  | relationSet relationId data =>
    have hitems := setItems_follows data.entries h
    have hcontext : (respond t k r x (.relationSet relationId data)).1 =
        (setItems t k r x data.entries).1 := by
      cases hout : setItems t k r x data.entries with
      | mk x' raised => cases raised <;> simp [respond, hout]
    rw [HookCommand.calls, List.map_map, hcontext]
    exact hitems

/-- A command has to do with the context that it is for, and with no other. -/
theorem hookCommand_follows (ident : String) (hr : rel.relations.lookup ident = some r)
    (h : Follows t k r byName (fun _ => True) (s.contexts ident) v) :
    Follows t k r byName (fun _ => True) ((hookCommand t k rel s c).1.contexts ident)
        (v.run t k r byName "" (if rel.isFor ident c then c.calls.map .call else [])).1 ∧
      ((hookCommand t k rel s c).1.contexts ident).contents = (s.contexts ident).contents := by
  unfold hookCommand HookRelations.isFor
  cases hfor : rel.contextOf c.relationId with
  | error e => exact ⟨h, rfl⟩
  | ok ident' =>
    by_cases hthis : ident' = ident
    · subst hthis
      simp only [hr, decide_true, if_true, Function.update_self]
      exact respond_follows c h
    · simp only [hthis, decide_false, Bool.false_eq_true, if_false]
      cases hrelation : rel.relations.lookup ident' with
      | none => exact ⟨h, rfl⟩
      | some r' =>
        simp only [Function.update_of_ne (Ne.symm hthis), and_true]
        exact h

theorem hookCommand_stage : (hookCommand t k rel s c).1.stage = s.stage := by
  unfold hookCommand
  cases rel.contextOf c.relationId with
  | error e => rfl
  | ok ident =>
    cases hrelation : rel.relations.lookup ident with
    | none => simp only [hrelation]
    | some r => simp only [hrelation]

end commands

section changes

theorem replay_append (contents : String → Option (Dict String String))
    (before : List NodeChange) (change : NodeChange) :
    replay contents (before ++ [change]) = replay (replay contents before) [change] := by
  unfold replay
  rw [List.foldl_append]

theorem replay_flushed (contents : String → Option (Dict String String)) (ident path : String)
    (content : Option (Dict String String)) :
    replay contents [.flushed ident path content] = Function.update contents path content := rfl

theorem replay_others (contents : String → Option (Dict String String)) (path : String)
    (content : Option (Dict String String)) :
    replay contents [.others path content] = Function.update contents path content := rfl

/-- What the events show, whatever is made of commands after the exit. -/
theorem seenBy_append (h : HookRelations) (ident : String) (before after : List HookEvent) :
    seenBy h ident (before ++ after) =
      if (exitOf before).isSome then seenBy h ident before
      else seenBy h ident before ++ seenBy h ident after := by
  induction before with
  | nil => rfl
  | cons e before ih =>
    cases e with
    | command c =>
      have hexit : exitOf (.command c :: before) = exitOf before := rfl
      rw [List.cons_append, seenBy, seenBy, ih, hexit]
      by_cases hexited : (exitOf before).isSome = true
      · rw [if_pos hexited, if_pos hexited]
      · rw [if_neg hexited, if_neg hexited, List.append_assoc]
    | changeNode path content =>
      have hexit : exitOf (.changeNode path content :: before) = exitOf before := rfl
      rw [List.cons_append, seenBy, seenBy, ih, hexit]
      by_cases hexited : (exitOf before).isSome = true
      · rw [if_pos hexited, if_pos hexited]
      · rw [if_neg hexited, if_neg hexited, List.cons_append]
    | exited reason => rfl
    | cleanup step => exact ih

theorem exitOf_append (before : List HookEvent) (e : HookEvent) :
    exitOf (before ++ [e]) = (exitOf before).or e.exit? := by
  unfold exitOf
  rw [List.findSome?_append]
  cases e <;> rfl

theorem exited_zero (hookName : String) (reason : ProcessReason) (code : Int)
    (h : processReason hookName reason = .ok code) : reason.exitCode = some 0 := by
  unfold processReason at h
  cases hcode : reason.exitCode with
  | none =>
    rw [hcode] at h
    cases hsignal : reason.signal with
    | none => simp [hsignal] at h
    | some signal => cases signal <;> simp [hsignal] at h
  | some code' =>
    by_cases hzero : code' = 0
    · rw [hzero]
    · simp [hcode, hzero] at h

end changes

end Juju.Hooks
