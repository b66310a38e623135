import Juju.State.UnitLookups

namespace Juju.State
open Juju.Base

def globalPath (relationId unitId : String) : String :=
  "/relations/" ++ relationId ++ "/settings/" ++ unitId

def scopedPath (relationId containerId unitId : String) : String :=
  "/relations/" ++ relationId ++ "/" ++ containerId ++ "/settings/" ++ unitId

theorem globalPath_ne_scopedPath (relationId containerId unitId : String) :
    globalPath relationId unitId ≠ scopedPath relationId containerId unitId := by
  intro he
  have hlen := congrArg String.length he
  unfold globalPath scopedPath at hlen
  simp only [String.length_append] at hlen
  have hslash : "/".length = 1 := rfl
  omega

/-- The id of the scope that a unit is in, when the relation has container scope. -/
def scopeId (container : Option ServiceUnitState) (unitId : String) : String :=
  match container with
  | none => unitId
  | some container => container.internalId

section access

variable {t : InternalTopology} {relationId : String} {relation : Relation}
  (u v : UnitInRelation t relationId relation) (container : Option ServiceUnitState)

theorem addUnitStatePath_global (hrid : IsNodeName relationId) (hg : relation.scope = "global")
    (hc : u.unitState.getContainer t = .ok container) :
    settingsPath u v .addUnitState = .ok (globalPath relationId u.unitId) := by
  have hstrip := rstripSlash_slash "/relations/" relationId hrid
  unfold globalPath
  simp only [settingsPath, ServiceRelationState.addUnitStatePath, hc,
    ServiceRelationState.getScopePath, UnitInRelation.serviceRelationState, hg]
  simp [bind, Except.bind, UnitInRelation.unitState, hstrip]

theorem addUnitStatePath_container (hcid : IsNodeName (scopeId container u.unitId))
    (hs : relation.scope = "container") (hc : u.unitState.getContainer t = .ok container) :
    settingsPath u v .addUnitState =
      .ok (scopedPath relationId (scopeId container u.unitId) u.unitId) := by
  have hstrip := rstripSlash_name ("/relations/" ++ relationId ++ "/")
    (scopeId container u.unitId) hcid
  unfold scopedPath
  simp only [settingsPath, ServiceRelationState.addUnitStatePath, hc,
    ServiceRelationState.getScopePath, UnitInRelation.serviceRelationState, hs]
  cases container <;>
    simp_all [bind, Except.bind, scopeId, UnitInRelation.unitState]

theorem slash_settings : "/settings/" = "/" ++ ("settings" ++ "/") := rfl

theorem slash_relations : "/relations/" = "/relations" ++ "/" := rfl

theorem getSettingsPath_global (hrid : relationId ≠ "") (huid : u.unitId ≠ "")
    (hg : relation.scope = "global") (hc : read t (getServiceUnitContainer u.unitId) = .ok none) :
    u.unitRelationState.getSettingsPath t = .ok (globalPath relationId u.unitId) := by
  unfold globalPath
  simp only [UnitRelationState.getSettingsPath, UnitRelationState.getContainerId,
    UnitInRelation.unitRelationState, hc, hg]
  have hparts : ["/relations", relationId, (none : Option String).getD "", "settings",
      u.unitId].filter (· ≠ "") = ["/relations", relationId, "settings", u.unitId] := by
    simp [hrid, huid]
  simp only [bind, Except.bind, if_true, hparts, joinPath, slash_settings, slash_relations,
    String.append_assoc]

theorem getContainerId_container (hs : container ≠ none ∨ relation.scope = "container")
    (hc : read t (getServiceUnitContainer u.unitId) = .ok container) :
    u.unitRelationState.getContainerId t = .ok (some (scopeId container u.unitId)) := by
  simp only [UnitRelationState.getContainerId, UnitInRelation.unitRelationState, hc]
  cases container with
  | none =>
    have hscope : relation.scope = "container" := hs.resolve_left (fun hne => hne rfl)
    simp [bind, Except.bind, scopeId, hscope]
  | some container => simp [bind, Except.bind, scopeId]

theorem getSettingsPath_container (containerId : String) (hrid : relationId ≠ "")
    (huid : u.unitId ≠ "") (hcid : containerId ≠ "")
    (hc : u.unitRelationState.getContainerId t = .ok (some containerId)) :
    u.unitRelationState.getSettingsPath t =
      .ok (scopedPath relationId containerId u.unitId) := by
  unfold scopedPath
  simp only [UnitRelationState.getSettingsPath, hc]
  have hparts : ["/relations", relationId, (some containerId).getD "", "settings",
      u.unitId].filter (· ≠ "") =
        ["/relations", relationId, containerId, "settings", u.unitId] := by
    simp [hrid, huid, hcid]
  simp only [bind, Except.bind, UnitInRelation.unitRelationState, hparts, joinPath,
    slash_settings, slash_relations, String.append_assoc]

theorem relationContextPath_global (hg : relation.scope = "global") :
    relationContextPath t v.unitRelationState u.unitId =
      .ok (globalPath relationId u.unitId) := by
  unfold globalPath
  simp [relationContextPath, UnitInRelation.unitRelationState, hg]

theorem relationContextPath_container (containerId : String) (hvid : IsNodeName v.unitId)
    (hs : relation.scope = "container")
    (hp : v.unitRelationState.getSettingsPath t =
      .ok (scopedPath relationId containerId v.unitId)) :
    relationContextPath t v.unitRelationState u.unitId =
      .ok (scopedPath relationId containerId u.unitId) := by
  have hfront := beforeLast_name ("/relations/" ++ relationId ++ "/" ++ containerId ++
    "/settings") v.unitId hvid
  have hslash (name : String) : scopedPath relationId containerId name =
      "/relations/" ++ relationId ++ "/" ++ containerId ++ "/settings" ++ "/" ++ name := by
    have hjoin : "/settings/" = "/settings" ++ "/" := rfl
    unfold scopedPath
    rw [hjoin, ← String.append_assoc]
  have hscope : ¬ v.unitRelationState.relationScope = "global" := by
    simp [UnitInRelation.unitRelationState, hs]
  rw [relationContextPath, if_neg hscope, hp, hslash, hslash]
  simp only [bind, Except.bind, hfront]

theorem counterpart_nodeName (relationRole role : String)
    (h : UnitRelationState.counterpart relationRole = some role) : IsNodeName role := by
  simp only [UnitRelationState.counterpart] at h
  split at h
  · obtain rfl := Option.some.inj h
    decide
  · obtain rfl := Option.some.inj h
    decide
  · obtain rfl := Option.some.inj h
    decide
  · simp at h

/-- A watcher's container is that of a role, in the scope of its own unit. -/
theorem getRelatedUnitContainer_ok (path : String)
    (hv : v.unitRelationState.getRelatedUnitContainer t = .ok path) :
    ∃ role, IsNodeName role ∧
      ((relation.scope ≠ "container" ∧ path = joinPath ["/relations", relationId, role]) ∨
        relation.scope = "container" ∧ ∃ containerId,
          v.unitRelationState.getContainerId t = .ok containerId ∧
          path = joinPath (["/relations", relationId] ++ containerId.toList ++ [role])) := by
  cases hrole : v.unitRelationState.getRelationRole t with
  | error e => simp [UnitRelationState.getRelatedUnitContainer, hrole, bind, Except.bind] at hv
  | ok relationRole =>
    by_cases hs : relation.scope = "container"
    · have hscope : v.unitRelationState.relationScope = "container" := hs
      cases hc : v.unitRelationState.getContainerId t with
      | error e =>
        simp [UnitRelationState.getRelatedUnitContainer, hrole, hscope, hc, bind,
          Except.bind] at hv
      | ok containerId =>
        simp only [UnitRelationState.getRelatedUnitContainer, hrole, hscope, hc, bind,
          Except.bind, if_true] at hv
        cases hp : UnitRelationState.counterpart relationRole with
        | none => simp [hp] at hv
        | some role =>
          simp only [hp] at hv
          exact ⟨role, counterpart_nodeName _ _ hp, Or.inr ⟨hs, containerId, rfl,
            (Except.ok.inj hv).symm⟩⟩
    · have hscope : ¬ v.unitRelationState.relationScope = "container" := hs
      simp only [UnitRelationState.getRelatedUnitContainer, hrole, hscope, bind,
        Except.bind, if_false] at hv
      cases hp : UnitRelationState.counterpart relationRole with
      | none => simp [hp] at hv
      | some role =>
        simp only [hp] at hv
        exact ⟨role, counterpart_nodeName _ _ hp, Or.inl ⟨hs, (Except.ok.inj hv).symm⟩⟩

theorem relatedWatcher_global (hrid : IsNodeName relationId) (hg : relation.scope = "global")
    (hw : Watches u v) :
    settingsPath u v .relatedWatcher = .ok (globalPath relationId u.unitId) := by
  obtain ⟨path, hpath⟩ := hw.1
  obtain ⟨role, hrole, ⟨-, hjoin⟩ | ⟨hs, -⟩⟩ := getRelatedUnitContainer_ok v path hpath
  · unfold globalPath
    have hdir := dirname_name "/relations/" relationId role hrid hrole
    have hfront : path = "/relations/" ++ relationId ++ "/" ++ role := by
      rw [hjoin]
      simp only [joinPath, slash_relations, String.append_assoc]
    simp only [settingsPath, hpath, bind, Except.bind, UnitRelationState.watcherSettingsPath,
      hfront, hdir]
  · rw [hg] at hs
    exact absurd hs (by decide)

theorem relatedWatcher_container (containerId : String) (hcid : IsNodeName containerId)
    (hs : relation.scope = "container") (hw : Watches u v)
    (hc : u.unitRelationState.getContainerId t = .ok (some containerId)) :
    settingsPath u v .relatedWatcher = .ok (scopedPath relationId containerId u.unitId) := by
  obtain ⟨path, hpath⟩ := hw.1
  obtain ⟨role, hrole, ⟨hnot, -⟩ | ⟨-, found, hfound, hjoin⟩⟩ :=
    getRelatedUnitContainer_ok v path hpath
  · exact absurd hs hnot
  · unfold scopedPath
    have hsame : found = some containerId := by
      rw [← hw.2 hs, hc] at hfound
      exact (Except.ok.inj hfound).symm
    have hdir := dirname_name ("/relations/" ++ relationId ++ "/") containerId role hcid hrole
    have hfront : path = "/relations/" ++ relationId ++ "/" ++ containerId ++ "/" ++ role := by
      rw [hjoin, hsame]
      simp only [Option.toList_some, List.cons_append, List.nil_append, joinPath,
        slash_relations, String.append_assoc]
    simp only [settingsPath, hpath, bind, Except.bind, UnitRelationState.watcherSettingsPath,
      hfront, hdir]

theorem departedContext_ok (h : Integrity t)
    (hc : read t (getServiceUnitContainer u.unitId) = .ok container) :
    settingsPath u v .departedContext =
      .ok (container.elim (globalPath relationId u.unitId)
        fun c => scopedPath relationId c.internalId u.unitId) := by
  have hid := getServiceUnitIdFromName_unit h u.serviceId u.unitId u.service u.unit u.sequence
    u.hservice u.hunit u.hsequence
  have hslash : "/settings/" = "/" ++ "settings/" := rfl
  unfold globalPath scopedPath
  cases container <;>
    simp [settingsPath, departedContextPath, hid, hc, bind, Except.bind, hslash,
      String.append_assoc]

theorem pathsAgree_global (h : Integrity t) (hrid : IsNodeName relationId)
    (huid : IsNodeName u.unitId) (hg : relation.scope = "global") (hw : Watches u v)
    (hc : read t (getServiceUnitContainer u.unitId) = .ok none) (access : SettingsAccess) :
    settingsPath u v access = .ok (globalPath relationId u.unitId) := by
  have hcontainer : u.unitState.getContainer t = .ok none := by
    simp [ServiceUnitState.getContainer, UnitInRelation.unitState, hc]
  cases access with
  | addUnitState => exact addUnitStatePath_global u v none hrid hg hcontainer
  | unitRelation => exact getSettingsPath_global u hrid.1 huid.1 hg hc
  | ownContext => exact relationContextPath_global u u hg
  | relatedContext => exact relationContextPath_global u v hg
  | relatedWatcher => exact relatedWatcher_global u v hrid hg hw
  | departedContext => exact departedContext_ok u v none h hc

theorem pathsAgree_container (h : Integrity t) (c : ServiceUnitState)
    (hrid : IsNodeName relationId) (huid : IsNodeName u.unitId) (hvid : IsNodeName v.unitId)
    (hcid : IsNodeName c.internalId) (hs : relation.scope = "container") (hw : Watches u v)
    (hc : read t (getServiceUnitContainer u.unitId) = .ok (some c)) (access : SettingsAccess) :
    settingsPath u v access = .ok (scopedPath relationId c.internalId u.unitId) := by
  have hcontainer : u.unitState.getContainer t = .ok (some c) := by
    simp [ServiceUnitState.getContainer, UnitInRelation.unitState, hc]
  have hu := getContainerId_container u (some c) (Or.inr hs) hc
  have hv : v.unitRelationState.getContainerId t = .ok (some c.internalId) := by
    rw [← hw.2 hs, hu]
    rfl
  cases access with
  | addUnitState => exact addUnitStatePath_container u v (some c) hcid hs hcontainer
  | unitRelation => exact getSettingsPath_container u _ hrid.1 huid.1 hcid.1 hu
  | ownContext =>
    exact relationContextPath_container u u _ huid hs
      (getSettingsPath_container u _ hrid.1 huid.1 hcid.1 hu)
  | relatedContext =>
    exact relationContextPath_container u v _ hvid hs
      (getSettingsPath_container v _ hrid.1 hvid.1 hcid.1 hv)
  | relatedWatcher => exact relatedWatcher_container u v _ hcid hs hw hu
  | departedContext => exact departedContext_ok u v (some c) h hc

theorem dataShared_of_pathsAgree (h : PathsAgree u v) : DataShared u v := by
  obtain ⟨path, hpath⟩ := h
  intro nodes data writer reader
  exact ⟨path, path, hpath writer, hpath reader, by rw [Dict.lookup_insert, if_pos rfl]⟩

/-- The paths agree exactly for a unit that is in place, and then so do the data. -/
theorem pathsAgree_iff (h : Integrity t)
    (hscope : relation.scope = "global" ∨ relation.scope = "container")
    (hrid : IsNodeName relationId)
    (hnames : ∀ serviceId unitId unit, t.serviceUnit? serviceId unitId = some unit →
      IsNodeName unitId) (hw : Watches u v) :
    (PathsAgree u v ↔ InPlace u) ∧ (InPlace u → DataShared u v) := by
  have hname (w : UnitInRelation t relationId relation) : IsNodeName w.unitId :=
    hnames w.serviceId w.unitId w.unit
      ((serviceUnit?_lookup t w.serviceId w.unitId w.service w.hservice).trans w.hunit)
  have hne : "global" ≠ "container" := by decide
  have hiff : PathsAgree u v ↔ InPlace u := by
    rcases getServiceUnitContainer_unit h u.serviceId u.unitId u.service u.unit u.hservice
      u.hunit with ⟨hnone, hc⟩ | ⟨containerId, hsome, ⟨serviceId, unit, c, hunit, hid, hc⟩ | he⟩
    · have hdeparted := departedContext_ok u v none h hc
      rcases hscope with hg | hs
      · have hall := pathsAgree_global u v h hrid (hname u) hg hw hc
        exact ⟨fun _ => Or.inl ⟨hg, hnone⟩, fun _ => ⟨_, hall⟩⟩
      · have hu := getContainerId_container u none (Or.inr hs) hc
        have hown := getSettingsPath_container u _ hrid.1 (hname u).1 (hname u).1 hu
        constructor
        · rintro ⟨path, hpath⟩
          have hfirst := Except.ok.inj ((hpath .departedContext).symm.trans hdeparted)
          have hsecond := Except.ok.inj ((hpath .unitRelation).symm.trans hown)
          exact absurd (hfirst.symm.trans hsecond) (globalPath_ne_scopedPath _ _ _)
        · rintro (⟨hg, -⟩ | ⟨-, hin⟩)
          · exact absurd (hg.symm.trans hs) hne
          · exact absurd hnone hin
    · have hdeparted := departedContext_ok u v (some c) h hc
      have hin : u.unit.container ≠ none := by simp [hsome]
      have hcid : IsNodeName c.internalId := hid ▸ hnames serviceId containerId unit hunit
      rcases hscope with hg | hs
      · have hcontainer : u.unitState.getContainer t = .ok (some c) := by
          simp [ServiceUnitState.getContainer, UnitInRelation.unitState, hc]
        have hadded := addUnitStatePath_global u v (some c) hrid hg hcontainer
        constructor
        · rintro ⟨path, hpath⟩
          have hfirst := Except.ok.inj ((hpath .departedContext).symm.trans hdeparted)
          have hsecond := Except.ok.inj ((hpath .addUnitState).symm.trans hadded)
          exact absurd (hsecond.symm.trans hfirst) (globalPath_ne_scopedPath _ _ _)
        · rintro (⟨-, hnone⟩ | ⟨hs, -⟩)
          · exact absurd hnone hin
          · exact absurd (hg.symm.trans hs) hne
      · have hall := pathsAgree_container u v h c hrid (hname u) (hname v) hcid hs hw hc
        exact ⟨fun _ => Or.inr ⟨hs, hin⟩, fun _ => ⟨_, hall⟩⟩
    · obtain ⟨e, he⟩ := he
      have hu : u.unitRelationState.getContainerId t = .error e := by
        simp [UnitRelationState.getContainerId, UnitInRelation.unitRelationState, he, bind,
          Except.bind]
      constructor
      · rintro ⟨path, hpath⟩
        have hown := hpath .unitRelation
        simp [settingsPath, UnitRelationState.getSettingsPath, hu, bind, Except.bind] at hown
      · rintro (⟨-, hnone⟩ | ⟨hs, -⟩)
        · simp [hsome] at hnone
        · obtain ⟨path, hpath⟩ := hw.1
          obtain ⟨role, -, ⟨hnot, -⟩ | ⟨-, found, hfound, -⟩⟩ :=
            getRelatedUnitContainer_ok v path hpath
          · exact absurd hs hnot
          · rw [← hw.2 hs, hu] at hfound
            simp at hfound
  exact ⟨hiff, fun hin => dataShared_of_pathsAgree u v (hiff.mpr hin)⟩

end access

theorem nodeNames_of_all (t : InternalTopology)
    (h : ∀ e ∈ t.services.entries, ∀ x ∈ e.2.units.entries, IsNodeName x.1)
    (serviceId unitId : String) (unit : ServiceUnit)
    (hu : t.serviceUnit? serviceId unitId = some unit) : IsNodeName unitId := by
  obtain ⟨service, hs, hunit⟩ := Option.bind_eq_some_iff.mp hu
  have hin := (Dict.mem_entries_iff t.services ⟨serviceId, service⟩).mpr hs
  exact h _ hin ⟨unitId, unit⟩ ((Dict.mem_entries_iff _ _).mpr hunit)

/-- A subordinate logging unit in the container of a wordpress unit, with a relation of global
scope to a database. -/
def deployed : InternalTopology :=
  [TopologyCall.addService "service-0" "wordpress", .addService "service-1" "logging",
    .addService "service-2" "mysql", .addRelation "relation-0" "logging" "container",
    .assignServiceToRelation "relation-0" "service-0" "juju-info" "server",
    .assignServiceToRelation "relation-0" "service-1" "logging-directory" "client",
    .addRelation "relation-1" "mysql" "global",
    .assignServiceToRelation "relation-1" "service-1" "db" "client",
    .assignServiceToRelation "relation-1" "service-2" "server" "server",
    .addServiceUnit "service-0" "unit-0" none,
    .addServiceUnit "service-1" "unit-1" (some "unit-0"),
    .addServiceUnit "service-2" "unit-2" none].foldl call freshTopology

def containerRelation : Relation :=
  ⟨"logging", "container", (deployed.relations.lookup "relation-0").elim ∅ Relation.services⟩

def globalRelation : Relation :=
  ⟨"mysql", "global", (deployed.relations.lookup "relation-1").elim ∅ Relation.services⟩

def deployedService (serviceId : String) : Service :=
  (deployed.services.lookup serviceId).getD ⟨"", ∅⟩

def wordpressUnit : UnitInRelation deployed "relation-0" containerRelation :=
  ⟨"service-0", deployedService "service-0", ⟨"juju-info", "server"⟩, "unit-0",
    ⟨some 0, none, none⟩, 0, rfl, rfl, rfl, rfl, rfl⟩

def loggingUnit : UnitInRelation deployed "relation-0" containerRelation :=
  ⟨"service-1", deployedService "service-1", ⟨"logging-directory", "client"⟩, "unit-1",
    ⟨some 0, some "unit-0", none⟩, 0, rfl, rfl, rfl, rfl, rfl⟩

def loggingClient : UnitInRelation deployed "relation-1" globalRelation :=
  ⟨"service-1", deployedService "service-1", ⟨"db", "client"⟩, "unit-1",
    ⟨some 0, some "unit-0", none⟩, 0, rfl, rfl, rfl, rfl, rfl⟩

def mysqlUnit : UnitInRelation deployed "relation-1" globalRelation :=
  ⟨"service-2", deployedService "service-2", ⟨"server", "server"⟩, "unit-2",
    ⟨some 0, none, none⟩, 0, rfl, rfl, rfl, rfl, rfl⟩

theorem pathsAgree_logging : PathsAgree loggingUnit wordpressUnit ∧
    DataShared loggingUnit wordpressUnit := by
  have hin : InPlace loggingUnit := Or.inr ⟨rfl, by simp [loggingUnit]⟩
  have hnames := nodeNames_of_all deployed (by decide)
  have hwatched : Watches loggingUnit wordpressUnit :=
    ⟨⟨"/relations/relation-0/unit-0/client", by decide⟩, by decide⟩
  have hboth := pathsAgree_iff loggingUnit wordpressUnit
    (calls_integrity freshTopology_integrity _) (Or.inr rfl) (by decide) hnames hwatched
  exact ⟨hboth.1.mpr hin, hboth.2 hin⟩

/-- The settings of the principal unit in container scope, and of the subordinate unit in global
scope, are in two places. -/
theorem settings_in_two_places :
    (Watches wordpressUnit loggingUnit ∧ ¬ PathsAgree wordpressUnit loggingUnit) ∧
      Watches loggingClient mysqlUnit ∧ ¬ PathsAgree loggingClient mysqlUnit := by
  have hwatched : Watches wordpressUnit loggingUnit :=
    ⟨⟨"/relations/relation-0/unit-0/server", by decide +kernel⟩, by decide +kernel⟩
  have hglobal : Watches loggingClient mysqlUnit :=
    ⟨⟨"/relations/relation-1/client", by decide +kernel⟩, by decide +kernel⟩
  refine ⟨⟨hwatched, ?_⟩, hglobal, ?_⟩
  · rintro ⟨path, hpath⟩
    have hadded : settingsPath wordpressUnit loggingUnit .addUnitState =
        .ok "/relations/relation-0/unit-0/settings/unit-0" := by decide +kernel
    have hdeparted : settingsPath wordpressUnit loggingUnit .departedContext =
        .ok "/relations/relation-0/settings/unit-0" := by decide +kernel
    rw [hpath] at hadded hdeparted
    exact absurd (hadded.symm.trans hdeparted) (by decide)
  · rintro ⟨path, hpath⟩
    have hadded : settingsPath loggingClient mysqlUnit .addUnitState =
        .ok "/relations/relation-1/settings/unit-1" := by decide +kernel
    have hunit : settingsPath loggingClient mysqlUnit .unitRelation =
        .ok "/relations/relation-1/unit-0/settings/unit-1" := by decide +kernel
    rw [hpath] at hadded hunit
    exact absurd (hadded.symm.trans hunit) (by decide)

end Juju.State
