import Juju.Lib.SharedNode

namespace Juju.State
open Juju.Base Juju.Lib

inductive UnitFlagError where
  | upgradeAlreadyEnabled
  | invalidRetry (retry : Nat)
  | ambiguousHooks (hookNames : List String)
deriving DecidableEq

/-- A call about a flag that a unit's node keeps, with values `V`. -/
inductive FlagCall (V : Type) where
  | set (value : V)
  | get
  | clear

/-- A YAML codec for the nodes of flags. A text that is loaded as something else than a flag stands
for none. -/
structure FlagYaml (T V : Type) where
  isEmpty : T → Bool
  load : T → Option V
  dump : V → T
  isEmpty_dump : ∀ value, isEmpty (dump value) = false
  load_dump : ∀ value, load (dump value) = some value

/-- `RETRY_HOOKS` or `NO_HOOKS`. -/
abbrev RetryValue := {retry : Nat // retry = 1000 ∨ retry = 1001}

/-- Names of hooks to debug, where the star for all of them stands alone. -/
abbrev HookNames := {hookNames : List String // ¬ ("*" ∈ hookNames ∧ hookNames.length > 1)}

def setResolved (retry : Nat) : Except UnitFlagError (FlagCall RetryValue) :=
  if h : retry = 1000 ∨ retry = 1001 then .ok (.set ⟨retry, h⟩) else .error (.invalidRetry retry)

def enableHookDebug (hookNames : List String) : Except UnitFlagError (FlagCall HookNames) :=
  if h : "*" ∈ hookNames ∧ hookNames.length > 1 then .error (.ambiguousHooks hookNames)
  else .ok (.set ⟨hookNames, h⟩)

section calls

variable {T V : Type} (yaml : FlagYaml T V)

/-- The `update` of `set_upgrade_flag`. -/
def updateUpgradeFlag (yaml : FlagYaml T Bool) (force : Bool) (content : Option T) :
    Except UnitFlagError T :=
  match content with
  | none => .ok (yaml.dump force)
  | some content =>
    if yaml.isEmpty content then .ok (yaml.dump force)
    else
      match yaml.load content with
      | none => .ok (yaml.dump force)
      | some flag => if flag ≠ force then .error .upgradeAlreadyEnabled else .ok content

def upgradeCall (yaml : FlagYaml T Bool) : FlagCall Bool → NodeCall T UnitFlagError
  | .set force => .change (updateUpgradeFlag yaml force)
  | .get => .get
  | .clear => .delete

/-- The calls of a flag that is set by creating its node. -/
def createdFlagCall : FlagCall V → NodeCall T UnitFlagError
  | .set value => .create (yaml.dump value)
  | .get => .get
  | .clear => .delete

def resolvedCall (yaml : FlagYaml T RetryValue) : FlagCall RetryValue → NodeCall T UnitFlagError :=
  createdFlagCall yaml

/-- The node is ephemeral: the end of the session that created it clears it, too. -/
def hookDebugCall (yaml : FlagYaml T HookNames) : FlagCall HookNames → NodeCall T UnitFlagError :=
  createdFlagCall yaml

/-- What a reader makes of the reply: a node that is not there, or is empty, has no flag. -/
def flagReply : NodeReply T UnitFlagError → Option V
  | .content content => if yaml.isEmpty content then none else yaml.load content
  | _ => none

/-- The flag that a node keeps. -/
def keptFlag (content : Option T) : Option V :=
  content.bind fun content => if yaml.isEmpty content then none else yaml.load content

/-- A content that is a flag. -/
def IsFlag (content : T) : Prop := yaml.isEmpty content = false ∧ yaml.load content ≠ none

end calls

/-- What becomes of a flag: the value that is set first stays until it is cleared. -/
def FlagCall.run {V : Type} (flag : Option V) : FlagCall V → Option V
  | .set value => flag.or (some value)
  | .get => flag
  | .clear => none

/-- The calls of a flag do to its node what they are meant to do; a set is accepted by the flags
that `accepts` says. -/
structure FlagLaw {T V : Type} (yaml : FlagYaml T V) (op : FlagCall V → NodeCall T UnitFlagError)
    (accepts : Option V → V → Prop) : Prop where
  once : SharedNode.WriteOnce op (IsFlag yaml)
  get : op .get = .get
  run : ∀ node call, (∀ c, node = some c → IsFlag yaml c) →
    keptFlag yaml ((op call).apply node).1 = call.run (keptFlag yaml node)
  accepted : ∀ node value, (∀ c, node = some c → IsFlag yaml c) →
    (((op (.set value)).apply node).2 = .done ↔ accepts (keptFlag yaml node) value)
  value : ∀ flag value, accepts flag value → flag.or (some value) = some value

section laws

variable {T V : Type} (yaml : FlagYaml T V)

theorem dump_isFlag (value : V) : IsFlag yaml (yaml.dump value) :=
  ⟨yaml.isEmpty_dump value, by simp [yaml.load_dump]⟩

theorem keptFlag_dump (value : V) : keptFlag yaml (some (yaml.dump value)) = some value := by
  simp [keptFlag, yaml.isEmpty_dump, yaml.load_dump]

theorem keptFlag_isFlag (content : T) (h : IsFlag yaml content) :
    ∃ value, yaml.load content = some value ∧ keptFlag yaml (some content) = some value := by
  obtain ⟨value, hvalue⟩ := Option.ne_none_iff_exists'.mp h.2
  exact ⟨value, hvalue, by simp [keptFlag, h.1, hvalue]⟩

/-- A flag that is created is refused while there is one. -/
theorem createdFlag_law : FlagLaw yaml (createdFlagCall yaml) fun flag _ => flag = none := by
  refine ⟨⟨fun call f hf => ?_, fun call content hc => ?_⟩, rfl, fun node call hnode => ?_,
    fun node value hnode => ?_, fun flag value hnone => ?_⟩
  · cases call <;> cases hf
  · cases call with
    | set value =>
      cases hc
      exact dump_isFlag yaml value
    | get => cases hc
    | clear => cases hc
  · cases node with
    | none =>
      cases call with
      | set value => exact keptFlag_dump yaml value
      | get => rfl
      | clear => rfl
    | some content =>
      obtain ⟨value, -, hkept⟩ := keptFlag_isFlag yaml content (hnode content rfl)
      cases call with
      | set value' =>
        rw [hkept]
        exact hkept
      | get => rfl
      | clear => rfl
  · cases node with
    | none => exact iff_of_true rfl rfl
    | some content =>
      obtain ⟨value, -, hkept⟩ := keptFlag_isFlag yaml content (hnode content rfl)
      rw [hkept]
      exact iff_of_false (by simp [createdFlagCall, NodeCall.apply]) (by simp)
  · rw [hnone, Option.none_or]

/-- An upgrade flag that is there is accepted again with the same force. -/
theorem upgradeFlag_law (yaml : FlagYaml T Bool) :
    FlagLaw yaml (upgradeCall yaml) fun flag force => flag = none ∨ flag = some force := by
  refine ⟨⟨fun call f hf node content hnode hwritten => ?_, fun call content hc => ?_⟩, rfl,
    fun node call hnode => ?_, fun node force hnode => ?_, fun flag force haccepts => ?_⟩
  · cases call with
    | set force =>
      cases hf
      cases node with
      | none =>
        cases hwritten
        exact ⟨dump_isFlag yaml force, by simp⟩
      | some c =>
        obtain ⟨flag, hload, -⟩ := keptFlag_isFlag yaml c (hnode c rfl)
        simp only [updateUpgradeFlag, (hnode c rfl).1, hload, Bool.false_eq_true, if_false] at hwritten
        split at hwritten
        · cases hwritten
        · obtain rfl : c = content := Except.ok.inj hwritten
          exact ⟨hnode c rfl, fun c' hc' => Option.some.inj hc'⟩
    | get => cases hf
    | clear => cases hf
  · cases call <;> cases hc
  · cases node with
    | none =>
      cases call with
      | set force => exact keptFlag_dump yaml force
      | get => rfl
      | clear => rfl
    | some content =>
      obtain ⟨flag, hload, hkept⟩ := keptFlag_isFlag yaml content (hnode content rfl)
      cases call with
      | set force =>
        simp only [upgradeCall, NodeCall.apply, updateUpgradeFlag, (hnode content rfl).1, hload,
          Bool.false_eq_true, if_false, FlagCall.run, hkept]
        by_cases hforce : flag = force
        · simp [hforce ▸ hkept, hforce]
        · simp [hforce, hkept]
      | get => rfl
      | clear => rfl
  · cases node with
    | none => exact iff_of_true rfl (Or.inl rfl)
    | some content =>
      obtain ⟨flag, hload, hkept⟩ := keptFlag_isFlag yaml content (hnode content rfl)
      simp only [upgradeCall, NodeCall.apply, updateUpgradeFlag, (hnode content rfl).1, hload,
        Bool.false_eq_true, if_false, hkept]
      by_cases hforce : flag = force <;> simp [hforce]
  · rcases haccepts with rfl | rfl
    · rfl
    · rfl

variable {yaml} {op : FlagCall V → NodeCall T UnitFlagError} {accepts : Option V → V → Prop}
  (law : FlagLaw yaml op accepts)
include law

/-- Calls leave a flag, or none, and it is the one that they are meant to leave. -/
theorem flag_calls (base : Option T) (hbase : ∀ c, base = some c → IsFlag yaml c)
    (calls : List (FlagCall V)) :
    (∀ c, SharedNode.applyAll op base calls = some c → IsFlag yaml c) ∧
      keptFlag yaml (SharedNode.applyAll op base calls) =
        calls.foldl FlagCall.run (keptFlag yaml base) := by
  induction calls generalizing base with
  | nil => exact ⟨hbase, rfl⟩
  | cons call calls ih =>
    have hnext := ih ((op call).apply base).1 (SharedNode.writeOnce_apply law.once base hbase call)
    rw [law.run base call hbase] at hnext
    exact hnext

omit law in
/-- A flag stays as long as it is not cleared. -/
theorem flag_stays (calls : List (FlagCall V)) (hclear : ∀ call ∈ calls, call ≠ .clear) (value : V) :
    calls.foldl FlagCall.run (some value) = some value := by
  induction calls with
  | nil => rfl
  | cons call calls ih =>
    have hsame : call.run (some value) = some value := by
      cases call with
      | set value' => rfl
      | get => rfl
      | clear => exact absurd rfl (hclear _ List.mem_cons_self)
    rw [List.foldl_cons, hsame]
    exact ih fun call hcall => hclear call (List.mem_cons_of_mem _ hcall)

end laws

section flags

variable {W T V : Type} [DecidableEq W] [DecidableEq T]

/-- Where a set was accepted and no clear was applied since, what is read is its value, and what is
set again is accepted only as the flag accepts it over that value. -/
def HoldsFlag (yaml : FlagYaml T V) (accepts : Option V → V → Prop)
    (history : List (HistoryEntry W (FlagCall V) T UnitFlagError)) : Prop :=
  ∀ before w value middle w' call reply after,
    history = before ++ .applied w (.set value) .done :: (middle ++ .applied w' call reply :: after) →
    (∀ call ∈ SharedNode.appliedCalls middle, call ≠ .clear) →
    (call = .get → flagReply yaml reply = some value) ∧
      ∀ value', call = .set value' → (reply = .done ↔ accepts (some value) value')

theorem flag_held {yaml : FlagYaml T V} {op : FlagCall V → NodeCall T UnitFlagError}
    {accepts : Option V → V → Prop} (law : FlagLaw yaml op accepts) (base : Option T)
    (hbase : ∀ c, base = some c → IsFlag yaml c) (m : SharedNode W (FlagCall V) T UnitFlagError)
    (h : Reachable (fun m => m.Initial base) (fun m e => m.step op e) (fun _ _ => True) m) :
    SharedNode.Linearizable op base m.history m.content ∧ HoldsFlag yaml accepts m.history := by
  have hlinear := SharedNode.writeOnce_linearizable op base (IsFlag yaml) law.once hbase m h
  refine ⟨hlinear, fun before w value middle w' call reply after hhistory hclear => ?_⟩
  have hlegal := hlinear.legal
  rw [hhistory] at hlegal
  -- The set was accepted, so its value is what the flag is after it.
  obtain ⟨hkind, hbefore⟩ := flag_calls law base hbase (SharedNode.appliedCalls before)
  have hset := (law.accepted _ value hkind).mp (SharedNode.legal_reply before _ _ w _ _ hlegal).symm
  have hassoc : before ++ HistoryEntry.applied w (.set value) .done ::
      (middle ++ .applied w' call reply :: after) =
      (before ++ .applied w (.set value) .done :: middle) ++ .applied w' call reply :: after := by
    simp
  rw [hassoc] at hlegal
  have hreply := SharedNode.legal_reply _ after _ w' call reply hlegal
  have hcalls : SharedNode.appliedCalls
      (before ++ HistoryEntry.applied w (.set value) .done :: middle) =
      SharedNode.appliedCalls before ++ .set value :: SharedNode.appliedCalls middle := by
    rw [SharedNode.appliedCalls_append]
    rfl
  obtain ⟨hkind', hafter⟩ := flag_calls law base hbase (SharedNode.appliedCalls before ++
    .set value :: SharedNode.appliedCalls middle)
  rw [List.foldl_append, ← hbefore, List.foldl_cons, FlagCall.run, law.value _ _ hset,
    flag_stays _ hclear] at hafter
  rw [hcalls] at hreply
  refine ⟨fun hget => ?_, fun value' hvalue => ?_⟩
  · rw [hreply, hget, law.get, ← hafter]
    cases SharedNode.applyAll op base (SharedNode.appliedCalls before ++
      .set value :: SharedNode.appliedCalls middle) with
    | none => rfl
    | some content => rfl
  · rw [hreply, hvalue, law.accepted _ value' hkind', hafter]

/-- The flags of a unit under any number of clients that set, read and clear them. Each stays as it
was set first until it is cleared: a second request to resolve the unit or to debug its hooks is
refused until then, and a second one to upgrade it is accepted only with the same force. -/
theorem unit_flags_held (upgradeYaml : FlagYaml T Bool) (resolvedYaml : FlagYaml T RetryValue)
    (debugYaml : FlagYaml T HookNames) (upgradeBase resolvedBase debugBase : Option T)
    (hupgrade : ∀ c, upgradeBase = some c → IsFlag upgradeYaml c)
    (hresolved : ∀ c, resolvedBase = some c → IsFlag resolvedYaml c)
    (hdebug : ∀ c, debugBase = some c → IsFlag debugYaml c)
    (upgrade : SharedNode W (FlagCall Bool) T UnitFlagError)
    (hupgradeRun : Reachable (fun m => m.Initial upgradeBase)
      (fun m e => m.step (upgradeCall upgradeYaml) e) (fun _ _ => True) upgrade)
    (resolved : SharedNode W (FlagCall RetryValue) T UnitFlagError)
    (hresolvedRun : Reachable (fun m => m.Initial resolvedBase)
      (fun m e => m.step (resolvedCall resolvedYaml) e) (fun _ _ => True) resolved)
    (debug : SharedNode W (FlagCall HookNames) T UnitFlagError)
    (hdebugRun : Reachable (fun m => m.Initial debugBase)
      (fun m e => m.step (hookDebugCall debugYaml) e) (fun _ _ => True) debug) :
    (SharedNode.Linearizable (upgradeCall upgradeYaml) upgradeBase upgrade.history
        upgrade.content ∧
      HoldsFlag upgradeYaml (fun flag force => flag = none ∨ flag = some force)
        upgrade.history) ∧
    (SharedNode.Linearizable (resolvedCall resolvedYaml) resolvedBase resolved.history
        resolved.content ∧
      HoldsFlag resolvedYaml (fun flag _ => flag = none) resolved.history) ∧
    (SharedNode.Linearizable (hookDebugCall debugYaml) debugBase debug.history debug.content ∧
      HoldsFlag debugYaml (fun flag _ => flag = none) debug.history) :=
  ⟨flag_held (upgradeFlag_law upgradeYaml) upgradeBase hupgrade upgrade hupgradeRun,
    flag_held (createdFlag_law resolvedYaml) resolvedBase hresolved resolved hresolvedRun,
    flag_held (createdFlag_law debugYaml) debugBase hdebug debug hdebugRun⟩

end flags

section documents

/-- A flag's node by what YAML loads from it. -/
inductive FlagDocument where
  | empty
  | force (force : Bool)
  | retry (retry : Nat)
  | debugHooks (hookNames : List String)
deriving DecidableEq

def upgradeDocuments : FlagYaml FlagDocument Bool where
  isEmpty document := document = .empty
  load document :=
    match document with
    | .force force => some force
    | _ => none
  dump force := .force force
  isEmpty_dump _ := rfl
  load_dump _ := rfl

def resolvedDocuments : FlagYaml FlagDocument RetryValue where
  isEmpty document := document = .empty
  load document :=
    match document with
    | .retry retry => if h : retry = 1000 ∨ retry = 1001 then some ⟨retry, h⟩ else none
    | _ => none
  dump value := .retry value.1
  isEmpty_dump _ := rfl
  load_dump value := dif_pos value.2

def debugDocuments : FlagYaml FlagDocument HookNames where
  isEmpty document := document = .empty
  load document :=
    match document with
    | .debugHooks hookNames =>
      if h : ¬ ("*" ∈ hookNames ∧ hookNames.length > 1) then some ⟨hookNames, h⟩ else none
    | _ => none
  dump value := .debugHooks value.1
  isEmpty_dump _ := rfl
  load_dump value := dif_pos value.2

/-- Two clients mark a unit as resolved, one with its hooks and one without: the first is what both
read. -/
theorem unit_flags_held_raced :
    ∃ (resolved : SharedNode Bool (FlagCall RetryValue) FlagDocument UnitFlagError)
      (hooks noHooks : FlagCall RetryValue) (all : FlagCall HookNames),
      setResolved 1000 = .ok hooks ∧ setResolved 1001 = .ok noHooks ∧
      enableHookDebug ["*"] = .ok all ∧
      resolved.history = [.invoked false hooks, .invoked true noHooks, .applied false hooks .done,
        .applied true noHooks .nodeExists, .returned true noHooks .nodeExists, .invoked true .get,
        .applied true .get (.content (.retry 1000))] ∧
      SharedNode.Linearizable (resolvedCall resolvedDocuments) none resolved.history
        (some (.retry 1000)) ∧
      HoldsFlag resolvedDocuments (fun flag _ => flag = none) resolved.history := by
  have hupgrade : Reachable
      (fun m : SharedNode Bool (FlagCall Bool) FlagDocument UnitFlagError => m.Initial none)
      (fun m e => m.step (upgradeCall upgradeDocuments) e) (fun _ _ => True) _ :=
    reachable_stepAll (fun _ _ => trivial)
      [.invoke false (.set true), .serve false, .write false, .reply false]
      ⟨none, fun _ => .idle, []⟩ _ (.init _ ⟨rfl, fun _ => rfl, rfl⟩) rfl
  have hresolved : Reachable
      (fun m : SharedNode Bool (FlagCall RetryValue) FlagDocument UnitFlagError => m.Initial none)
      (fun m e => m.step (resolvedCall resolvedDocuments) e) (fun _ _ => True) _ :=
    reachable_stepAll (fun _ _ => trivial)
      [.invoke false (.set ⟨1000, .inl rfl⟩), .invoke true (.set ⟨1001, .inr rfl⟩), .serve false,
        .serve true, .reply true, .invoke true .get, .serve true]
      ⟨none, fun _ => .idle, []⟩ _ (.init _ ⟨rfl, fun _ => rfl, rfl⟩) rfl
  have hdebug : Reachable
      (fun m : SharedNode Bool (FlagCall HookNames) FlagDocument UnitFlagError => m.Initial none)
      (fun m e => m.step (hookDebugCall debugDocuments) e) (fun _ _ => True) _ :=
    reachable_stepAll (fun _ _ => trivial)
      [.invoke true (.set ⟨["*"], by decide⟩), .serve true, .reply true]
      ⟨none, fun _ => .idle, []⟩ _ (.init _ ⟨rfl, fun _ => rfl, rfl⟩) rfl
  have hheld := unit_flags_held upgradeDocuments resolvedDocuments debugDocuments none none none
    (fun c h => absurd h (by simp)) (fun c h => absurd h (by simp)) (fun c h => absurd h (by simp))
    _ hupgrade _ hresolved _ hdebug
  exact ⟨_, .set ⟨1000, .inl rfl⟩, .set ⟨1001, .inr rfl⟩, .set ⟨["*"], by decide⟩, rfl, rfl, rfl,
    rfl, hheld.2.1.1, hheld.2.1.2⟩

end documents

end Juju.State
