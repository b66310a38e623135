import Juju.State.GlobalSettings

namespace Juju.Agents
open Juju.Base Juju.Lib Juju.State

/-- How far the settings watch of an agent has come. -/
inductive WatchStage (T : Type) where
  | off
  /-- `start` has sent `exists_and_watch`. -/
  | asked
  | told (exists_ : Bool)
  /-- `_on_settings_changed` has sent `exists_and_watch`, and its callback a `get`. -/
  | arming
  | reading
  | answered (content : Option T)
  /-- A new handler is being opened. -/
  | opening
  /-- `_on_settings_changed` has been added to the deferred of the last watch. -/
  | waiting
  /-- The callback has raised, and the watcher has stopped. -/
  | lost

/-- The steps from a stage to the next wait. -/
def WatchStage.remaining {T : Type} : WatchStage T → Nat
  | .off => 10
  | .asked => 9
  | .told _ => 8
  | .arming => 5
  | .reading => 4
  | .answered _ => 3
  | .opening => 2
  | .waiting => 1
  | .lost => 0

/-- An agent, with the settings node and its other clients. `registered` tells whether the server
has the last watch still, `fired` whether the deferred of the last watch has its result;
`handlers` are the debug log handlers of the root logger. -/
structure LoggingAgent (W T : Type) where
  settings : SharedNode W SettingsCall T SettingsError
  stage : WatchStage T
  registered : Bool
  fired : Bool
  handler : Option Nat
  handlers : List Nat
  created : Nat

inductive LoggingEvent (W : Type) where
  /-- A step of another client of the settings. -/
  | settings (e : NodeEvent W SettingsCall)
  | start
  | serveExists
  | replyExists
  | serveGet
  | replyGet
  | opened
  | fire

/-- Whether an event is one of the agent's own. -/
def LoggingEvent.own {W : Type} : LoggingEvent W → Bool
  | settings _ => false
  | _ => true

namespace LoggingAgent

variable {W T : Type}

section steps

variable (s : LoggingAgent W T)

/-- Another `exists_and_watch` is sent, with a deferred of its own. -/
def watch (stage : WatchStage T) : LoggingAgent W T :=
  { s with stage := stage, registered := false, fired := false }

/-- The watcher is added to the deferred: it is called at once if the watch has fired. -/
def listen : LoggingAgent W T :=
  if s.fired then s.watch .arming else { s with stage := .waiting }

def startDebugLog : LoggingAgent W T :=
  match s.handler with
  | some _ => s.listen
  | none => { s with handler := some s.created, created := s.created + 1, stage := .opening }

def stopDebugLog : LoggingAgent W T :=
  match s.handler with
  | none => s.listen
  | some handler => { s with handler := none, handlers := s.handlers.erase handler }.listen

/-- The new handler is opened, and added to the root logger. -/
def addHandler : LoggingAgent W T :=
  match s.handler with
  | none => s.listen
  | some handler =>
    { s with
      handlers := if handler ∈ s.handlers then s.handlers else s.handlers ++ [handler] }.listen

variable (yaml : SettingsYaml T)

def onGlobalSettingsChange (content : Option T) : LoggingAgent W T :=
  match debugLogEnabled yaml content with
  | .error _ => { s with stage := .lost }
  | .ok true => s.startDebugLog
  | .ok false => s.stopDebugLog

variable [DecidableEq W] [DecidableEq T]

/-- The settings node is as `settings` has it: a watch that is registered fires if it has changed. -/
def settingsStep (settings : SharedNode W SettingsCall T SettingsError) : LoggingAgent W T :=
  if settings.node = s.settings.node then { s with settings := settings }
  else { s with settings := settings, registered := false, fired := s.fired || s.registered }

def step : LoggingEvent W → Option (LoggingAgent W T)
  | .settings e => (s.settings.step (SettingsCall.nodeCall yaml) e).map s.settingsStep
  | .start =>
    match s.stage with
    | .off => some (s.watch .asked)
    | _ => none
  | .serveExists =>
    match s.stage with
    | .asked => some { s with stage := .told s.settings.node.isSome, registered := true }
    | .arming => some { s with stage := .reading, registered := true }
    | _ => none
  | .replyExists =>
    match s.stage with
    | .told true => some (s.watch .arming)
    | .told false => some s.listen
    | _ => none
  | .serveGet =>
    match s.stage with
    | .reading => some { s with stage := .answered s.settings.content }
    | _ => none
  | .replyGet =>
    match s.stage with
    | .answered content => some (s.onGlobalSettingsChange yaml content)
    | _ => none
  | .opened =>
    match s.stage with
    | .opening => some s.addHandler
    | _ => none
  | .fire =>
    match s.stage with
    | .waiting => if s.fired then some (s.watch .arming) else none
    | _ => none

end steps

structure Initial (base : Option T) (s : LoggingAgent W T) : Prop where
  settings : s.settings.Initial base
  stage : s.stage = .off
  handler : s.handler = none
  handlers : s.handlers = []

/-- The watcher waits for a change, and none has come. -/
def Quiet (s : LoggingAgent W T) : Prop := s.stage = .waiting ∧ s.fired = false

section invariant

variable (yaml : SettingsYaml T)

/-- What the agent knows at a stage, if its watch has not fired. -/
def Knows (s : LoggingAgent W T) : WatchStage T → Prop
  | .told exists_ => s.registered = true ∧ exists_ = s.settings.node.isSome
  | .reading => s.registered = true
  | .answered content => s.registered = true ∧ content = s.settings.content
  | .opening => s.registered = true ∧ debugLogEnabled yaml s.settings.content = .ok true
  | .waiting =>
    s.registered = true ∧ debugLogEnabled yaml s.settings.content = .ok s.handler.isSome
  | _ => True

/-- The handlers that go with a stage. -/
def Installed (s : LoggingAgent W T) : WatchStage T → Prop
  | .off => s.handler = none ∧ s.handlers = []
  | .asked => s.handler = none ∧ s.handlers = []
  | .told _ => s.handler = none ∧ s.handlers = []
  | .opening => s.handler.isSome = true ∧ s.handlers = []
  | .lost => False
  | .answered content => s.handlers = s.handler.toList ∧ Loadable yaml content
  | _ => s.handlers = s.handler.toList

structure Follows (s : LoggingAgent W T) : Prop where
  loadable : Loadable yaml s.settings.content
  installed : s.Installed yaml s.stage
  knows : s.fired = false → s.Knows yaml s.stage

variable {yaml} {s : LoggingAgent W T} (hloadable : Loadable yaml s.settings.content)
include hloadable

theorem watch_follows (stage : WatchStage T) (hstage : stage = .asked ∨ stage = .arming)
    (hinstalled : s.Installed yaml stage) : Follows yaml (s.watch stage) := by
  rcases hstage with rfl | rfl
  · exact ⟨hloadable, hinstalled, fun _ => trivial⟩
  · exact ⟨hloadable, hinstalled, fun _ => trivial⟩

/-- A callback that has followed what it read goes on. -/
theorem listen_follows (hinstalled : s.handlers = s.handler.toList)
    (hknows : s.fired = false → s.registered = true ∧
      debugLogEnabled yaml s.settings.content = .ok s.handler.isSome) :
    Follows yaml s.listen := by
  unfold listen
  split
  · exact watch_follows hloadable .arming (Or.inr rfl) hinstalled
  · exact ⟨hloadable, hinstalled, hknows⟩

/-- The callback makes the handlers follow what it has read. -/
theorem change_follows (content : Option T) (hcontent : Loadable yaml content)
    (hinstalled : s.handlers = s.handler.toList)
    (hknows : s.fired = false → s.registered = true ∧ content = s.settings.content) :
    Follows yaml (s.onGlobalSettingsChange yaml content) := by
  obtain ⟨enabled, henabled⟩ := loadable_enabled yaml content hcontent
  have hcurrent (hfired : s.fired = false) :
      s.registered = true ∧ debugLogEnabled yaml s.settings.content = .ok enabled := by
    obtain ⟨hregistered, rfl⟩ := hknows hfired
    exact ⟨hregistered, henabled⟩
  unfold onGlobalSettingsChange
  rw [henabled]
  cases enabled with
  | true =>
    dsimp only
    unfold startDebugLog
    split
    · rename_i handler hhandler
      refine listen_follows hloadable hinstalled fun hfired => ?_
      rw [hhandler]
      exact hcurrent hfired
    · rename_i hhandler
      rw [hhandler] at hinstalled
      exact ⟨hloadable, ⟨rfl, hinstalled⟩, hcurrent⟩
  | false =>
    dsimp only
    unfold stopDebugLog
    split
    · rename_i hhandler
      refine listen_follows hloadable hinstalled fun hfired => ?_
      rw [hhandler]
      exact hcurrent hfired
    · rename_i handler hhandler
      have hremoved : s.handlers.erase handler = [] := by
        rw [hinstalled, hhandler]
        simp
      exact listen_follows
        (s := { s with handler := none, handlers := s.handlers.erase handler })
        hloadable hremoved hcurrent

theorem addHandler_follows (handler : Nat) (hhandler : s.handler = some handler)
    (hhandlers : s.handlers = [])
    (hknows : s.fired = false → s.registered = true ∧
      debugLogEnabled yaml s.settings.content = .ok true) : Follows yaml s.addHandler := by
  unfold addHandler
  rw [hhandler]
  dsimp only
  rw [hhandlers, if_neg (by simp)]
  refine listen_follows (s := { s with handlers := [] ++ [handler], handler := some handler })
    hloadable rfl hknows

end invariant

section runs

variable (yaml : SettingsYaml T)

theorem listen_settings (s : LoggingAgent W T) : s.listen.settings = s.settings := by
  unfold listen
  split
  · rfl
  · rfl

theorem change_settings (s : LoggingAgent W T) (content : Option T) :
    (s.onGlobalSettingsChange yaml content).settings = s.settings := by
  unfold onGlobalSettingsChange
  split
  · rfl
  · unfold startDebugLog
    split
    · exact listen_settings s
    · rfl
  · unfold stopDebugLog
    split
    · exact listen_settings s
    · exact listen_settings _

theorem addHandler_settings (s : LoggingAgent W T) : s.addHandler.settings = s.settings := by
  unfold addHandler
  split
  · exact listen_settings s
  · exact listen_settings _

variable [DecidableEq W] [DecidableEq T]

/-- The agent's own events leave the settings as they are. -/
theorem own_settings (s s' : LoggingAgent W T) (e : LoggingEvent W) (hown : e.own = true)
    (h : s.step yaml e = some s') : s'.settings = s.settings := by
  cases e with
  | settings e => cases hown
  | start =>
    simp only [step] at h
    split at h <;> cases h
    rfl
  | serveExists =>
    simp only [step] at h
    split at h <;> cases h <;> rfl
  | replyExists =>
    simp only [step] at h
    split at h <;> cases h
    · rfl
    · exact listen_settings s
  | serveGet =>
    simp only [step] at h
    split at h <;> cases h
    rfl
  | replyGet =>
    simp only [step] at h
    split at h <;> cases h
    exact change_settings yaml s _
  | opened =>
    simp only [step] at h
    split at h <;> cases h
    exact addHandler_settings s
  | fire =>
    simp only [step] at h
    split at h
    · split at h <;> cases h
      rfl
    · cases h

omit [DecidableEq W] in
theorem settingsStep_settings (s : LoggingAgent W T)
    (settings : SharedNode W SettingsCall T SettingsError) :
    (s.settingsStep settings).settings = settings := by
  unfold settingsStep
  split
  · rfl
  · rfl

theorem own_follows (s s' : LoggingAgent W T) (e : LoggingEvent W) (hown : e.own = true)
    (hs : Follows yaml s) (h : s.step yaml e = some s') : Follows yaml s' := by
  obtain ⟨hloadable, hinstalled, hknows⟩ := hs
  cases e with
  | settings e => cases hown
  | start =>
    simp only [step] at h
    split at h <;> cases h
    rename_i hstage
    rw [hstage] at hinstalled
    exact watch_follows hloadable .asked (Or.inl rfl) hinstalled
  | serveExists =>
    simp only [step] at h
    split at h
    · rename_i hstage
      cases h
      rw [hstage] at hinstalled
      exact ⟨hloadable, hinstalled, fun _ => ⟨rfl, rfl⟩⟩
    · rename_i hstage
      cases h
      rw [hstage] at hinstalled
      exact ⟨hloadable, hinstalled, fun _ => rfl⟩
    · cases h
  | replyExists =>
    simp only [step] at h
    split at h
    · rename_i hstage
      cases h
      rw [hstage] at hinstalled
      refine watch_follows hloadable .arming (Or.inr rfl) ?_
      obtain ⟨hhandler, hhandlers⟩ := hinstalled
      change s.handlers = s.handler.toList
      rw [hhandler, hhandlers]
      rfl
    · rename_i hstage
      cases h
      rw [hstage] at hinstalled hknows
      obtain ⟨hhandler, hhandlers⟩ := hinstalled
      refine listen_follows hloadable (by rw [hhandler, hhandlers]; rfl) fun hfired => ?_
      obtain ⟨hregistered, hexists⟩ := hknows hfired
      refine ⟨hregistered, ?_⟩
      have hnode : s.settings.node = none := by simpa using hexists.symm
      have hnone : s.settings.content = none := congrArg (Option.map Prod.fst) hnode
      rw [hnone, hhandler]
      rfl
    · cases h
  | serveGet =>
    simp only [step] at h
    split at h <;> cases h
    rename_i hstage
    rw [hstage] at hinstalled hknows
    exact ⟨hloadable, ⟨hinstalled, hloadable⟩, fun hfired => ⟨hknows hfired, rfl⟩⟩
  | replyGet =>
    simp only [step] at h
    split at h <;> cases h
    rename_i content hstage
    rw [hstage] at hinstalled hknows
    exact change_follows hloadable content hinstalled.2 hinstalled.1 hknows
  | opened =>
    simp only [step] at h
    split at h <;> cases h
    rename_i hstage
    rw [hstage] at hinstalled hknows
    obtain ⟨handler, hhandler⟩ := Option.isSome_iff_exists.mp hinstalled.1
    exact addHandler_follows hloadable handler hhandler hinstalled.2 hknows
  | fire =>
    simp only [step] at h
    split at h
    · rename_i hstage
      split at h <;> cases h
      rw [hstage] at hinstalled
      exact watch_follows hloadable .arming (Or.inr rfl) hinstalled
    · cases h

omit [DecidableEq W] in
/-- A change of the settings makes a registered watch fire. -/
theorem settingsStep_follows (s : LoggingAgent W T)
    (settings : SharedNode W SettingsCall T SettingsError) (hs : Follows yaml s)
    (hloadable : Loadable yaml settings.content) : Follows yaml (s.settingsStep settings) := by
  obtain ⟨-, hinstalled, hknows⟩ := hs
  unfold settingsStep
  split
  · rename_i hsame
    have hcontent : settings.content = s.settings.content := congrArg (Option.map Prod.fst) hsame
    refine ⟨hloadable, hinstalled, fun hfired => ?_⟩
    have hknown := hknows hfired
    revert hknown
    cases s.stage with
    | told exists_ =>
      rintro ⟨hregistered, hexists⟩
      exact ⟨hregistered, hexists.trans (congrArg Option.isSome hsame.symm)⟩
    | answered content =>
      rintro ⟨hregistered, hread⟩
      exact ⟨hregistered, hread.trans hcontent.symm⟩
    | opening =>
      rintro ⟨hregistered, henabled⟩
      exact ⟨hregistered, (congrArg (debugLogEnabled yaml) hcontent).trans henabled⟩
    | waiting =>
      rintro ⟨hregistered, henabled⟩
      exact ⟨hregistered, (congrArg (debugLogEnabled yaml) hcontent).trans henabled⟩
    | reading => exact id
    | off => exact id
    | asked => exact id
    | arming => exact id
    | lost => exact id
  · refine ⟨hloadable, hinstalled, fun hfired => ?_⟩
    have hboth : s.fired = false ∧ s.registered = false := by
      cases hf : s.fired <;> cases hr : s.registered <;> simp_all
    have hknown := hknows hboth.1
    revert hknown
    cases s.stage with
    | told exists_ => exact fun hknown => absurd hknown.1 (by simp [hboth.2])
    | answered content => exact fun hknown => absurd hknown.1 (by simp [hboth.2])
    | opening => exact fun hknown => absurd hknown.1 (by simp [hboth.2])
    | waiting => exact fun hknown => absurd hknown.1 (by simp [hboth.2])
    | reading => exact fun (hknown : s.registered = true) => absurd hknown (by simp [hboth.2])
    | off => exact fun _ => trivial
    | asked => exact fun _ => trivial
    | arming => exact fun _ => trivial
    | lost => exact fun _ => trivial

/-- The steps that the agent needs at most until it waits for a change. -/
def remaining (s : LoggingAgent W T) : Nat :=
  s.stage.remaining + if s.fired then 6 else 0

omit [DecidableEq W] [DecidableEq T] in
theorem watch_remaining (s : LoggingAgent W T) (stage : WatchStage T) :
    (s.watch stage).remaining = stage.remaining := rfl

omit [DecidableEq W] [DecidableEq T] in
theorem listen_remaining (s : LoggingAgent W T) :
    s.listen.remaining ≤ if s.fired then 5 else 1 := by
  unfold listen
  split
  · rw [watch_remaining]
    rfl
  · rename_i hfired
    simp [remaining, WatchStage.remaining, hfired]

omit [DecidableEq W] [DecidableEq T] in
theorem change_remaining (s : LoggingAgent W T) (content : Option T)
    (hstage : s.stage = .answered content) :
    (s.onGlobalSettingsChange yaml content).remaining < s.remaining := by
  have hlisten (s' : LoggingAgent W T) (hfired : s'.fired = s.fired) :
      s'.listen.remaining < s.remaining := by
    refine Nat.lt_of_le_of_lt (listen_remaining s') ?_
    rw [hfired, remaining, hstage]
    cases s.fired <;> simp [WatchStage.remaining]
  unfold onGlobalSettingsChange
  split
  · simp [remaining, WatchStage.remaining, hstage]
  · unfold startDebugLog
    split
    · exact hlisten s rfl
    · simp [remaining, WatchStage.remaining, hstage]
  · unfold stopDebugLog
    split
    · exact hlisten s rfl
    · exact hlisten _ rfl

/-- Each of its own events takes the agent further. -/
theorem own_remaining (s s' : LoggingAgent W T) (e : LoggingEvent W) (hown : e.own = true)
    (h : s.step yaml e = some s') : s'.remaining < s.remaining := by
  cases e with
  | settings e => cases hown
  | start =>
    simp only [step] at h
    split at h <;> cases h
    rename_i hstage
    rw [watch_remaining]
    simp only [remaining, WatchStage.remaining, hstage]
    omega
  | serveExists =>
    simp only [step] at h
    split at h <;> cases h
    · rename_i hstage
      simp [remaining, WatchStage.remaining, hstage]
    · rename_i hstage
      simp [remaining, WatchStage.remaining, hstage]
  | replyExists =>
    simp only [step] at h
    split at h <;> cases h
    · rename_i hstage
      rw [watch_remaining]
      simp only [remaining, WatchStage.remaining, hstage]
      omega
    · rename_i hstage
      refine Nat.lt_of_le_of_lt (listen_remaining s) ?_
      simp only [remaining, hstage]
      cases s.fired <;> simp [WatchStage.remaining]
  | serveGet =>
    simp only [step] at h
    split at h <;> cases h
    rename_i hstage
    simp [remaining, WatchStage.remaining, hstage]
  | replyGet =>
    simp only [step] at h
    split at h <;> cases h
    rename_i content hstage
    exact change_remaining yaml s content hstage
  | opened =>
    simp only [step] at h
    split at h <;> cases h
    rename_i hstage
    unfold addHandler
    split
    · refine Nat.lt_of_le_of_lt (listen_remaining s) ?_
      simp only [remaining, hstage]
      cases s.fired <;> simp [WatchStage.remaining]
    · refine Nat.lt_of_le_of_lt (listen_remaining _) ?_
      simp only [remaining, hstage]
      cases s.fired <;> simp [WatchStage.remaining]
  | fire =>
    simp only [step] at h
    split at h
    · rename_i hstage
      split at h <;> cases h
      rename_i hfired
      rw [watch_remaining]
      simp [remaining, WatchStage.remaining, hstage, hfired]
    · cases h

/-- An agent that has no event of its own is quiet. -/
theorem quiet_of_done (s : LoggingAgent W T) (hs : Follows yaml s)
    (hdone : ∀ e : LoggingEvent W, e.own = true → s.step yaml e = none) : s.Quiet := by
  have hinstalled := hs.installed
  have hstart := hdone .start rfl
  have hserve := hdone .serveExists rfl
  have hreply := hdone .replyExists rfl
  have hget := hdone .serveGet rfl
  have hread := hdone .replyGet rfl
  have hopened := hdone .opened rfl
  have hfire := hdone .fire rfl
  cases hstage : s.stage with
  | off => simp [step, hstage] at hstart
  | asked => simp [step, hstage] at hserve
  | told exists_ => cases exists_ <;> simp [step, hstage] at hreply
  | arming => simp [step, hstage] at hserve
  | reading => simp [step, hstage] at hget
  | answered content => simp [step, hstage] at hread
  | opening => simp [step, hstage] at hopened
  | waiting =>
    refine ⟨hstage, ?_⟩
    simpa [step, hstage] using hfire
  | lost =>
    rw [hstage] at hinstalled
    exact hinstalled.elim

/-- What the other clients see of the settings is a run without the agent. -/
theorem settings_reachable (base : Option T) (s : LoggingAgent W T)
    (h : Reachable (Initial base) (fun s e => s.step yaml e) (fun _ _ => True) s) :
    Reachable (fun m => m.Initial base) (fun m e => m.step (SettingsCall.nodeCall yaml) e)
      (fun _ _ => True) s.settings := by
  induction h with
  | init s hs => exact .init _ hs.settings
  | step s s' e _ _ hstep ih =>
    cases hown : e.own with
    | true =>
      rw [own_settings yaml s s' e hown hstep]
      exact ih
    | false =>
      cases e with
      | settings e =>
        obtain ⟨settings, hsettings, rfl⟩ := Option.map_eq_some_iff.mp hstep
        rw [settingsStep_settings]
        exact .step _ _ e ih trivial hsettings
      | _ => cases hown

theorem settings_linearizable (base : Option T) (s : LoggingAgent W T)
    (h : Reachable (Initial base) (fun s e => s.step yaml e) (fun _ _ => True) s) :
    SharedNode.Linearizable (SettingsCall.nodeCall yaml) base s.settings.history
      s.settings.content := by
  have hdelete (call : SettingsCall) : call.nodeCall yaml ≠ .delete := by
    cases call <;> simp [SettingsCall.nodeCall]
  exact SharedNode.undeleted_linearizable _ base hdelete _ (settings_reachable yaml base s h)

/-- The settings stay loadable, and the last call about the debug log has the say. -/
theorem settings_enabled (base : Option T) (enabled : Bool)
    (henabled : debugLogEnabled yaml base = .ok enabled) (s : LoggingAgent W T)
    (h : Reachable (Initial base) (fun s e => s.step yaml e) (fun _ _ => True) s) :
    Loadable yaml s.settings.content ∧ debugLogEnabled yaml s.settings.content =
      .ok ((lastDebugLog (SharedNode.appliedCalls s.settings.history)).getD enabled) := by
  rw [SharedNode.legal_content _ _ (settings_linearizable yaml base s h).legal]
  exact calls_debugLog yaml base _ (enabled_loadable yaml base enabled henabled) enabled henabled

theorem reached_follows (base : Option T) (enabled : Bool)
    (henabled : debugLogEnabled yaml base = .ok enabled) (s : LoggingAgent W T)
    (h : Reachable (Initial base) (fun s e => s.step yaml e) (fun _ _ => True) s) :
    Follows yaml s := by
  induction h with
  | init s hs =>
    refine ⟨?_, ?_, fun _ => ?_⟩
    · rw [hs.settings.content]
      exact enabled_loadable yaml base enabled henabled
    · rw [hs.stage]
      exact ⟨hs.handler, hs.handlers⟩
    · rw [hs.stage]
      trivial
  | step s s' e hreached _ hstep ih =>
    cases hown : e.own with
    | true => exact own_follows yaml s s' e hown ih hstep
    | false =>
      have hnext := settings_enabled yaml base enabled henabled s' (.step s s' e hreached trivial hstep)
      cases e with
      | settings e =>
        obtain ⟨settings, hsettings, rfl⟩ := Option.map_eq_some_iff.mp hstep
        rw [settingsStep_settings] at hnext
        exact settingsStep_follows yaml s settings ih hnext.1
      | _ => cases hown

omit [DecidableEq W] [DecidableEq T] in
theorem follows_handlers (s : LoggingAgent W T) (hs : Follows yaml s) : s.handlers.length ≤ 1 := by
  have hinstalled := hs.installed
  have hsame (h : s.handlers = s.handler.toList) : s.handlers.length ≤ 1 := by
    rw [h]
    cases s.handler <;> simp
  have hnone (h : s.handlers = []) : s.handlers.length ≤ 1 := by
    simp [h]
  revert hinstalled
  cases s.stage with
  | off => exact fun h => hnone h.2
  | asked => exact fun h => hnone h.2
  | told exists_ => exact fun h => hnone h.2
  | opening => exact fun h => hnone h.2
  | lost => exact fun h => h.elim
  | answered content => exact fun h => hsame h.1
  | arming => exact hsame
  | reading => exact hsame
  | waiting => exact hsame

/-- The agent's own events come to an end, however they are chosen. -/
theorem own_ends (own : List (LoggingEvent W)) (s s' : LoggingAgent W T)
    (hown : ∀ e ∈ own, e.own = true)
    (h : stepAll (fun s e => s.step yaml e) s own = some s') :
    own.length + s'.remaining ≤ s.remaining := by
  induction own generalizing s with
  | nil =>
    obtain rfl := Option.some.inj h
    simp
  | cons e own ih =>
    obtain ⟨hfirst, hrest⟩ := List.forall_mem_cons.mp hown
    obtain ⟨s₁, hstep, hsteps⟩ := Option.bind_eq_some_iff.mp h
    have hless := own_remaining yaml s s₁ e hfirst hstep
    have hle := ih s₁ hrest hsteps
    rw [List.length_cons]
    omega

omit [DecidableEq W] [DecidableEq T] in
theorem remaining_le (s : LoggingAgent W T) : s.remaining ≤ 16 := by
  unfold remaining
  cases s.stage <;> cases s.fired <;> simp [WatchStage.remaining]

/-- However the agent's requests, the watch and the calls of other clients interleave: there is
never more than one debug log handler; while the agent waits for a change there is one if and only
if the last call about the debug log enabled it; and the agent waits again after at most sixteen
events of its own. -/
theorem debug_log_followed (base : Option T) (enabled : Bool)
    (henabled : debugLogEnabled yaml base = .ok enabled) (s : LoggingAgent W T)
    (h : Reachable (Initial base) (fun s e => s.step yaml e) (fun _ _ => True) s) :
    SharedNode.Linearizable (SettingsCall.nodeCall yaml) base s.settings.history
        s.settings.content ∧
      s.handlers.length ≤ 1 ∧
      (s.Quiet → (s.handlers ≠ [] ↔
        (lastDebugLog (SharedNode.appliedCalls s.settings.history)).getD enabled = true)) ∧
      ∀ own s', (∀ e ∈ own, e.own = true) →
        stepAll (fun s e => s.step yaml e) s own = some s' → own.length ≤ 16 ∧
          ((∀ e, e.own = true → s'.step yaml e = none) → s'.Quiet) := by
  have hfollows := reached_follows yaml base enabled henabled s h
  refine ⟨settings_linearizable yaml base s h, follows_handlers yaml s hfollows, ?_, ?_⟩
  · rintro ⟨hstage, hfired⟩
    have hinstalled := hfollows.installed
    have hknows := hfollows.knows hfired
    rw [hstage] at hinstalled hknows
    have hlast := (settings_enabled yaml base enabled henabled s h).2
    have hsome := Except.ok.inj (hknows.2.symm.trans hlast)
    change s.handlers = s.handler.toList at hinstalled
    rw [← hsome, hinstalled]
    cases s.handler <;> simp
  · intro own s' hown hsteps
    have hle := own_ends yaml own s s' hown hsteps
    have hbound := remaining_le s
    refine ⟨by omega, fun hdone => ?_⟩
    have hreached := reachable_stepAll (fun _ _ => trivial) own s s' h hsteps
    exact quiet_of_done yaml s' (reached_follows yaml base enabled henabled s' hreached) hdone

end runs

end LoggingAgent

/-- A codec whose texts are the entries. -/
def settingEntries : SettingsYaml (List (Sigma fun _ : String => SettingValue)) where
  empty _ := false
  load entries := if h : (entries.map Sigma.fst).Nodup then some ⟨entries, h⟩ else none
  safeDump data := data.entries
  load_safeDump data := dif_pos data.nodupKeys
  load_empty _ h := absurd h (by decide)

/-- The debug log is enabled while the agent learns that there are no settings yet. -/
theorem debug_log_followed_race :
    ∃ s : LoggingAgent Unit (List (Sigma fun _ : String => SettingValue)),
      s.Quiet ∧ s.handlers = [0] ∧ s.handlers.length ≤ 1 := by
  have hrun : Reachable (LoggingAgent.Initial none)
      (fun (s : LoggingAgent Unit (List (Sigma fun _ : String => SettingValue))) e =>
        s.step settingEntries e) (fun _ _ => True) _ :=
    reachable_stepAll (fun _ _ => trivial)
      [.start, .serveExists, .settings (.invoke () (.setDebugLog true)), .settings (.serve ()),
        .settings (.write ()), .replyExists, .serveExists, .serveGet, .replyGet, .opened]
      ⟨⟨none, fun _ => .idle, []⟩, .off, false, false, none, [], 0⟩ _
      (.init _ ⟨⟨rfl, fun _ => rfl, rfl⟩, rfl, rfl, rfl⟩) rfl
  have hfollowed := LoggingAgent.debug_log_followed settingEntries none false rfl _ hrun
  exact ⟨_, ⟨rfl, rfl⟩, rfl, hfollowed.2.1⟩

end Juju.Agents
