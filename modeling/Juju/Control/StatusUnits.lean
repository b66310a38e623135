import Juju.Control.StatusNesting
import Juju.Control.StatusReturns
import Juju.Lib.Nesting

namespace Juju.Control
open Juju.Base
open Juju.Lib
open Juju.State

/-- Where the names of units stand in what has been collected. -/
def StatusCommand.nesting (s : StatusCommand) : Nesting String String where
  listed service name := ∃ info units, s.serviceData.lookup service = some info ∧
    info.units = some units ∧ name ∈ units
  nested container name := ∃ u, s.unitData.lookup container = some u ∧ name ∈ u.subordinates

/-- A unit stands in one place, under its container or else under its service. -/
def PlacedOnce (t : InternalTopology) (s : StatusCommand) (u : ServiceUnitState) : Prop :=
  s.nesting.Once u.unitName ∧
    match u.getContainer t with
    | .ok (some container) => s.nesting.nested container.unitName u.unitName
    | _ => s.nesting.listed u.serviceName u.unitName

/-- `parse_service_name`, of the name of a unit. -/
def serviceInName (k : TextKind) (unitName : String) : String :=
  ((parseUnitName k unitName).map Prod.fst).getD ""

/-- The scope lets the container of a unit through with the unit, and of the units of a service
that it lets through either all have containers or none has. -/
structure Nestable (t : InternalTopology) (scope : Option (List String)) : Prop where
  globs : Matchable t scope
  containers : ∀ u c, Handles t scope u → u.getContainer t = .ok (some c) → Handles t scope c
  apart : ∀ u v c, Handles t scope u → Handles t scope v → u.serviceName = v.serviceName →
    v.getContainer t = .ok (some c) → u.getContainer t ≠ .ok none

section names

variable {t : InternalTopology} (h : Integrity t)
include h

/-- Units of the topology have names of their own. -/
theorem unitState_unitName (sid₁ sid₂ uid₁ uid₂ : String) (u v : ServiceUnitState)
    (hu : t.unitState sid₁ uid₁ = some u) (hv : t.unitState sid₂ uid₂ = some v)
    (hname : u.unitName = v.unitName) : u = v := by
  obtain ⟨hservice, hsequence⟩ := unitName_injective _ _ _ _ hname
  obtain ⟨info₁, hs₁, hmap₁⟩ := Option.bind_eq_some_iff.mp hu
  obtain ⟨n₁, hn₁, rfl⟩ := Option.map_eq_some_iff.mp hmap₁
  obtain ⟨unit₁, hunit₁, hseq₁⟩ := Option.bind_eq_some_iff.mp hn₁
  obtain ⟨info₂, hs₂, hmap₂⟩ := Option.bind_eq_some_iff.mp hv
  obtain ⟨n₂, hn₂, rfl⟩ := Option.map_eq_some_iff.mp hmap₂
  obtain ⟨unit₂, hunit₂, hseq₂⟩ := Option.bind_eq_some_iff.mp hn₂
  obtain rfl := h.serviceName _ _ _ _ hs₁ hs₂ hservice
  have hsame : unit₁.sequence = unit₂.sequence := by
    rw [hseq₁, hseq₂]
    exact congrArg some hsequence
  obtain rfl := h.unitSequence sid₁ uid₁ uid₂ unit₁ unit₂
    ((serviceUnit?_lookup t sid₁ uid₁ info₁ hs₁).trans hunit₁)
    ((serviceUnit?_lookup t sid₁ uid₂ info₂ hs₂).trans hunit₂) hsame
  exact Option.some.inj (hu.symm.trans hv)

theorem handles_unitName (scope : Option (List String)) (u v : ServiceUnitState)
    (hu : Handles t scope u) (hv : Handles t scope v) (hname : u.unitName = v.unitName) :
    u = v := by
  obtain ⟨sid₁, uid₁, hu⟩ := hu.unit
  obtain ⟨sid₂, uid₂, hv⟩ := hv.unit
  exact unitState_unitName h sid₁ sid₂ uid₁ uid₂ u v hu hv hname

variable (scope : Option (List String)) {s : StatusCommand} (hs : Gathered t (Handles t scope) s)
include hs

/-- What the first pass notes of a unit is its container. -/
theorem gathered_parent (u : ServiceUnitState) (hu : Handles t scope u)
    (container : Option ServiceUnitState) (hc : u.getContainer t = .ok container) :
    s.parent u.unitName = container.map ServiceUnitState.unitName := by
  obtain ⟨x, hx⟩ := (Dict.mem_iff_lookup _ _).mp (hs.present u hu)
  obtain ⟨v, c, hv, hname, hcv, hnote, -⟩ := hs.units u.unitName x hx
  obtain rfl := handles_unitName h scope v u hv hu hname
  obtain rfl := Except.ok.inj (hcv.symm.trans hc)
  rw [StatusCommand.parent, hx]
  exact hnote

theorem gathered_mem (u : ServiceUnitState) (hu : ∃ sid uid, t.unitState sid uid = some u) :
    u.unitName ∈ s.unitData ↔ Handles t scope u := by
  constructor
  · intro hin
    obtain ⟨x, hx⟩ := (Dict.mem_iff_lookup _ _).mp hin
    obtain ⟨v, c, hv, hname, -⟩ := hs.units u.unitName x hx
    obtain ⟨sid₁, uid₁, hu⟩ := hu
    obtain ⟨sid₂, uid₂, hstate⟩ := hv.unit
    rwa [← unitState_unitName h sid₂ sid₁ uid₂ uid₁ v u hstate hu hname]
  · exact hs.present u

end names

/-- A unit is ranked above the container that is found for it. -/
theorem container_ranked {t : InternalTopology} (h : ManagerMade t)
    (scope : Option (List String)) (rank : String → Nat)
    (hrank : ∀ sid uid unit c, t.serviceUnit? sid uid = some unit → unit.container = some c →
      rank c < rank uid) (u c : ServiceUnitState) (hu : Handles t scope u)
    (hc : u.getContainer t = .ok (some c)) : rank c.internalId < rank u.internalId := by
  obtain ⟨sid, uid, hstate⟩ := hu.unit
  obtain ⟨unit, hunit⟩ := unitState_some sid uid u hstate
  rcases getContainer_cases h.integrity sid uid unit u hunit hstate with
    ⟨hnone, -⟩ | ⟨cid, psid, unit', container, hcontained, -, hcstate, hsome⟩
  · rw [hnone] at hc
    cases hc
  · rw [hsome] at hc
    cases hc
    obtain ⟨sid', unit₂, -, hunit₂, hcid, -⟩ := hcontained
    rw [(unitState_ids psid cid c hcstate).2, (unitState_ids sid uid u hstate).2]
    exact hrank sid' uid unit₂ cid hunit₂ hcid

section arranged

variable {k : TextKind} {t : InternalTopology} (h : ManagerMade t) (scope : Option (List String))
  {s s' : StatusCommand} (hs : Gathered t (Handles t scope) s) (harranged : Arranged k s s')
include h hs harranged

theorem arranged_root (hnests : Nestable t scope) (u : ServiceUnitState) (hu : Handles t scope u)
    (hc : u.getContainer t = .ok none) :
    (∀ service, s'.nesting.listed service u.unitName ↔ service = u.serviceName) ∧
      ∀ container, ¬ s'.nesting.nested container u.unitName := by
  have hparent := gathered_parent h.integrity scope hs u hu none hc
  refine ⟨fun service => ?_, fun container hnested => ?_⟩
  · show (∃ info units, _) ↔ _
    rw [harranged.listed service u.unitName]
    have hparse : parseUnitName k u.unitName = some (u.serviceName, (u.sequence : Int)) :=
      parseUnitName_unitName k u.serviceName u.sequence
    constructor
    · rintro ⟨-, -, -, -, n, hn⟩
      rw [hparse] at hn
      exact (congrArg Prod.fst (Option.some.inj hn)).symm
    · rintro rfl
      refine ⟨hs.services u hu, fun hin => ?_, hs.present u hu, hparent, _, hparse⟩
      obtain ⟨v, c, hv, hsame, hcv⟩ := (hs.subordinates u.serviceName).mp hin
      exact hnests.apart u v c hu hv hsame.symm hcv hc
  · obtain ⟨x, hx, hin⟩ := hnested
    have hsome := ((harranged.nested container x hx u.unitName).mp hin).2
    rw [hparent] at hsome
    cases hsome

theorem arranged_child (hnests : Nestable t scope) (u c : ServiceUnitState)
    (hu : Handles t scope u) (hc : u.getContainer t = .ok (some c)) :
    (∀ service, ¬ s'.nesting.listed service u.unitName) ∧
      ∀ container, s'.nesting.nested container u.unitName ↔ container = c.unitName := by
  have hparent : s.parent u.unitName = some c.unitName :=
    gathered_parent h.integrity scope hs u hu (some c) hc
  refine ⟨fun service hlisted => ?_, fun container => ?_⟩
  · obtain ⟨-, -, -, hnone, -⟩ := (harranged.listed service u.unitName).mp hlisted
    rw [hparent] at hnone
    cases hnone
  · constructor
    · rintro ⟨x, hx, hin⟩
      have hsome := ((harranged.nested container x hx u.unitName).mp hin).2
      rw [hparent] at hsome
      exact (Option.some.inj hsome).symm
    · rintro rfl
      have hpresent := hs.present c (hnests.containers u c hu hc)
      obtain ⟨x, hx⟩ := (Dict.mem_iff_lookup _ _).mp ((harranged.names c.unitName).mpr hpresent)
      exact ⟨x, hx, (harranged.nested _ x hx u.unitName).mpr ⟨hs.present u hu, hparent⟩⟩

theorem arranged_placed (hnests : Nestable t scope) (u : ServiceUnitState)
    (hu : Handles t scope u) : s'.nesting.Placed s.parent
      (serviceInName k) u.unitName := by
  obtain ⟨sid, uid, hstate⟩ := hu.unit
  obtain ⟨container, hcontainer, -⟩ := getContainer_ok h sid uid u hstate
  have hparent := gathered_parent h.integrity scope hs u hu container hcontainer
  cases container with
  | none =>
    obtain ⟨hlisted, hnested⟩ := arranged_root h scope hs harranged hnests u hu hcontainer
    refine ⟨fun _ => ⟨fun service => ?_, hnested⟩, fun p hp => ?_⟩
    · rw [hlisted, serviceInName, ServiceUnitState.unitName, parseUnitName_unitName]
      rfl
    · rw [hparent] at hp
      cases hp
  | some c =>
    obtain ⟨hlisted, hnested⟩ := arranged_child h scope hs harranged hnests u c hu hcontainer
    refine ⟨fun hp => ?_, fun p hp => ⟨hlisted, fun q => ?_⟩⟩
    · rw [hparent] at hp
      cases hp
    · rw [hparent] at hp
      rw [hnested, ← Option.some.inj hp]

theorem arranged_once (hnests : Nestable t scope) (u : ServiceUnitState)
    (hu : Handles t scope u) : s'.nesting.Once u.unitName := by
  classical
  obtain ⟨rank, hrank⟩ := h.ranked
  let nameRank : String → Nat := fun name =>
    if hname : ∃ v, Handles t scope v ∧ v.unitName = name then rank hname.choose.internalId else 0
  have hnameRank (v : ServiceUnitState) (hv : Handles t scope v) :
      nameRank v.unitName = rank v.internalId := by
    have hname : ∃ w, Handles t scope w ∧ w.unitName = v.unitName := ⟨v, hv, rfl⟩
    have hsame : hname.choose = v :=
      handles_unitName h.integrity scope _ v hname.choose_spec.1 hv hname.choose_spec.2
    simp only [nameRank, dif_pos hname, hsame]
  have hplaced : ∀ name, (∃ v, Handles t scope v ∧ v.unitName = name) →
      s'.nesting.Placed s.parent (serviceInName k) name := by
    rintro name ⟨v, hv, rfl⟩
    exact arranged_placed h scope hs harranged hnests v hv
  have hparents : ∀ name p, (∃ v, Handles t scope v ∧ v.unitName = name) →
      s.parent name = some p →
        (∃ v, Handles t scope v ∧ v.unitName = p) ∧ nameRank p < nameRank name := by
    rintro name p ⟨v, hv, rfl⟩ hp
    obtain ⟨sid, uid, hstate⟩ := hv.unit
    obtain ⟨container, hcontainer, -⟩ := getContainer_ok h sid uid v hstate
    rw [gathered_parent h.integrity scope hs v hv container hcontainer] at hp
    cases container with
    | none => cases hp
    | some c =>
      obtain rfl := Option.some.inj hp
      have hc := hnests.containers v c hv hcontainer
      rw [hnameRank v hv, hnameRank c hc]
      exact ⟨⟨c, hc, rfl⟩, container_ranked h scope rank hrank v c hv hcontainer⟩
  exact Nesting.once_of_placed _ nameRank hplaced hparents u.unitName ⟨u, hu, rfl⟩

theorem arranged_placedOnce (hnests : Nestable t scope) (u : ServiceUnitState)
    (hu : Handles t scope u) : PlacedOnce t s' u := by
  refine ⟨arranged_once h scope hs harranged hnests u hu, ?_⟩
  obtain ⟨sid, uid, hstate⟩ := hu.unit
  obtain ⟨container, hcontainer, -⟩ := getContainer_ok h sid uid u hstate
  rw [hcontainer]
  cases container with
  | none => exact ((arranged_root h scope hs harranged hnests u hu hcontainer).1 _).mpr rfl
  | some c => exact ((arranged_child h scope hs harranged hnests u c hu hcontainer).2 _).mpr rfl

/-- A service that both kinds of units have loses those that stand alone. -/
theorem nestable_of_placedOnce (hmatch : Matchable t scope)
    (hplaces : ∀ name ∈ s.unitData, Placeable k s name)
    (honce : ∀ u, Handles t scope u → PlacedOnce t s' u) : Nestable t scope := by
  refine ⟨hmatch, fun u c hu hc => ?_, fun u v c hu hv hsame hcv hcu => ?_⟩
  · have hparent : s.parent u.unitName = some c.unitName :=
      gathered_parent h.integrity scope hs u hu (some c) hc
    have hpresent := (placeable_child _ _ hparent).mp (hplaces _ (hs.present u hu))
    obtain ⟨sid, uid, hstate⟩ := hu.unit
    obtain ⟨container, hcontainer, hread⟩ := getContainer_ok h sid uid u hstate
    obtain rfl := Except.ok.inj (hcontainer.symm.trans hc)
    exact (gathered_mem h.integrity scope hs c (hread c rfl)).mp hpresent
  · have hlisted := (honce u hu).2
    rw [hcu] at hlisted
    obtain ⟨-, hnot, -⟩ := (harranged.listed u.serviceName u.unitName).mp hlisted
    exact hnot ((hs.subordinates u.serviceName).mpr ⟨v, c, hv, hsame.symm, hcv⟩)

end arranged

/-- The machines leave the places of units. -/
theorem placedOnce_congr (t : InternalTopology) (s s' : StatusCommand)
    (hservices : s'.serviceData = s.serviceData) (hunits : s'.unitData = s.unitData)
    (u : ServiceUnitState) : PlacedOnce t s' u ↔ PlacedOnce t s u := by
  have hsame : s'.nesting = s.nesting := by
    simp only [StatusCommand.nesting, hservices, hunits]
  rw [PlacedOnce, PlacedOnce, hsame]

/-- The passes that a collection is made of. -/
theorem collect_returns (k : TextKind) (t : InternalTopology) (nodes : StatusNodes) (fuel : Nat)
    (scope : Option (List String)) (r : StatusCommand) :
    Returns (collect k t nodes fuel scope) r ↔ ∃ services s s',
      ask t getAllServiceStates = .ok services ∧
      Returns (processServices k t nodes fuel services (reset scope)) s ∧
      processSubordinates k s = .ok s' ∧ processMachines t nodes t.getMachines s' = .ok r := by
  simp only [collect, returns_bind, returns_lift]
  constructor
  · rintro ⟨services, hservices, s, hs, s', hs', hr⟩
    exact ⟨services, s, s', hservices, hs, hs', hr⟩
  · rintro ⟨services, s, s', hservices, hs, hs', hr⟩
    exact ⟨services, hservices, s, hs, s', hs', hr⟩

/-- Whatever the managers have made of the topology: the status is collected, with each unit that
the scope lets through in its one place, just when the scope and the containers agree. -/
theorem status_lists_units {C : Type} [DecidableEq C] (s : StateManagers C)
    (h : Reachable StateManagers.Initial StateManagers.step SequencedNodes s) (k : TextKind)
    (nodes : StatusNodes) (scope : Option (List String)) :
    ((∃ fuel r, Returns (collect k s.topology nodes fuel scope) r ∧
        ∀ u, Handles s.topology scope u → PlacedOnce s.topology r u) ↔
      Nestable s.topology scope) ∧
    ∀ fuel r, Returns (collect k s.topology nodes fuel scope) r →
      ∀ sid uid u, s.topology.unitState sid uid = some u →
        (u.unitName ∈ r.unitData ↔ Handles s.topology scope u) := by
  have hmade := reachable_managerMade s h
  have hpasses (fuel : Nat) (r : StatusCommand)
      (hrun : Returns (collect k s.topology nodes fuel scope) r) :
      ∃ s₁ s₂, Gathered s.topology (Handles s.topology scope) s₁ ∧
        Matchable s.topology scope ∧ (∀ name ∈ s₁.unitData, Placeable k s₁ name) ∧
        Arranged k s₁ s₂ ∧ r.serviceData = s₂.serviceData ∧ r.unitData = s₂.unitData := by
    obtain ⟨services, s₁, s₂, hservices, hs₁, hs₂, hr⟩ := (collect_returns _ _ _ _ _ _).mp hrun
    obtain ⟨hgathered, hmatch⟩ :=
      gather_handled k s.topology nodes fuel scope hmade.integrity services s₁ hservices hs₁
    obtain ⟨hplaces, harranged⟩ := processSubordinates_arranged k _ _ s₁ hgathered s₂ hs₂
    obtain ⟨hdata, hunits⟩ := processMachines_units s.topology nodes _ s₂ r hr
    exact ⟨s₁, s₂, hgathered, hmatch, hplaces, harranged, hdata, hunits⟩
  refine ⟨⟨?_, fun hnests => ?_⟩, fun fuel r hrun sid uid u hu => ?_⟩
  · rintro ⟨fuel, r, hrun, honce⟩
    obtain ⟨s₁, s₂, hgathered, hmatch, hplaces, harranged, hdata, hunits⟩ := hpasses fuel r hrun
    exact nestable_of_placedOnce hmade scope hgathered harranged hmatch hplaces
      fun u hu => (placedOnce_congr _ s₂ r hdata hunits u).mp (honce u hu)
  · obtain ⟨fuel, hfuel⟩ := fueled_of_ranked s.topology hmade.ranked
    obtain ⟨services, hservices, -⟩ := serviceStates_read s.topology hmade.integrity
    obtain ⟨s₁, hs₁⟩ := gather_returns k hmade nodes fuel hfuel scope hnests.globs services hservices
    obtain ⟨hgathered, -⟩ :=
      gather_handled k s.topology nodes fuel scope hmade.integrity services s₁ hservices hs₁
    have hplaces : ∀ name ∈ s₁.unitData, Placeable k s₁ name := by
      intro name hname
      obtain ⟨x, hx⟩ := (Dict.mem_iff_lookup _ _).mp hname
      obtain ⟨u, container, hu, rfl, hcontainer, -⟩ := hgathered.units name x hx
      have hparent := gathered_parent hmade.integrity scope hgathered u hu container hcontainer
      cases container with
      | none =>
        exact (placeable_root _ hparent).mpr ⟨u.serviceName, _,
          parseUnitName_unitName k u.serviceName u.sequence, hgathered.services u hu⟩
      | some c =>
        exact (placeable_child _ _ hparent).mpr
          (hgathered.present c (hnests.containers u c hu hcontainer))
    obtain ⟨s₂, hs₂⟩ := processSubordinates_ok k _ _ s₁ hgathered hplaces
    obtain ⟨r, hr⟩ := processMachines_ok hmade nodes s.topology.getMachines
      (fun m hm => AList.mem_keys.mp (List.mem_mergeSort.mp hm)) s₂
    have hrun : Returns (collect k s.topology nodes fuel scope) r :=
      (collect_returns _ _ _ _ _ _).mpr ⟨services, s₁, s₂, hservices, hs₁, hs₂, hr⟩
    obtain ⟨-, harranged⟩ := processSubordinates_arranged k _ _ s₁ hgathered s₂ hs₂
    obtain ⟨hdata, hunits⟩ := processMachines_units s.topology nodes _ s₂ r hr
    exact ⟨fuel, r, hrun, fun u hu => (placedOnce_congr _ s₂ r hdata hunits u).mpr
      (arranged_placedOnce hmade scope hgathered harranged hnests u hu)⟩
  · obtain ⟨s₁, s₂, hgathered, -, -, harranged, -, hunits⟩ := hpasses fuel r hrun
    rw [hunits, harranged.names]
    exact gathered_mem hmade.integrity scope hgathered u ⟨sid, uid, hu⟩

section runs

/-- A client's change is evaluated and written. -/
def writesChange : List (ManagerEvent Nat) :=
  [.reply 0 (.changeEvaluated fun _ => .ok true), .reply 0 .contentSet]

def addsUnit (service : ServiceState) (container : Option ServiceUnitState) (id : String) :
    List (ManagerEvent Nat) :=
  [.start 0 (.addUnitState service container), .reply 0 (.nodes none), .reply 0 (.created id)] ++
    (container.toList.map fun _ => .reply 0 (.validated (.ok false) (.ok true))) ++ writesChange

def mysql : ServiceState := ⟨"service-0", "mysql"⟩

def logging : ServiceState := ⟨"service-1", "logging"⟩

def mysqlUnit (sequence : Nat) (id : String) : ServiceUnitState :=
  ⟨"service-0", "mysql", sequence, id⟩

/-- A principal, and a subordinate in its one unit. -/
def deploysLogging : List (ManagerEvent Nat) :=
  [.start 0 (.addServiceState "mysql"), .reply 0 (.created "service-0")] ++ writesChange ++
  [.start 0 (.addServiceState "logging"), .reply 0 (.created "service-1")] ++ writesChange ++
  [.start 0 (.addRelationState [⟨"mysql", "juju-info", "juju-info", "server", "container"⟩,
      ⟨"logging", "juju-info", "info", "client", "container"⟩]),
    .reply 0 .topologyRead, .reply 0 (.created "relation-0")] ++ writesChange ++
  addsUnit mysql none "unit-0" ++ addsUnit logging (some (mysqlUnit 0 "unit-0")) "unit-1"

/-- A second unit of both, after which the first unit of the principal is removed. -/
def movesPrincipal : List (ManagerEvent Nat) :=
  addsUnit mysql none "unit-2" ++ addsUnit logging (some (mysqlUnit 1 "unit-2")) "unit-3" ++
  [.start 0 (.removeUnitState mysql (mysqlUnit 0 "unit-0"))] ++ writesChange ++ writesChange

/-- Nodes of units that are all started. -/
def startedNodes : StatusNodes where
  charmId _ := "local:oneiric/dummy-1"
  charmName charmId := charmId
  charmSubordinate _ := false
  exposed _ := false
  unitWorkflow _ := some "started"
  unitAgent _ := true
  openPorts _ := []
  publicAddress _ := none
  exists? _ := false
  relationWorkflow _ _ := none
  instanceId _ := none
  machineAgent _ := false
  providerMachine _ := none

/-- The node that is created is not a machine's. -/
def makesNoMachine (s : StateManagers Nat) : ManagerEvent Nat → Bool
  | .reply c (.created _) =>
    match s.calls c with
    | .running (.create .machine :: _) _ => false
    | _ => true
  | _ => true

theorem makesNoMachine_sequenced (s : StateManagers Nat) (e : ManagerEvent Nat)
    (h : makesNoMachine s e = true) : SequencedNodes s e := by
  cases e with
  | start c call => trivial
  | reply c r =>
    cases r with
    | created id =>
      intro rest evaluated hc
      simp [makesNoMachine, hc] at h
    | _ => trivial

theorem deployed_reachable (events : List (ManagerEvent Nat)) (s : StateManagers Nat)
    (hs : stepAll (fun s e => if makesNoMachine s e then s.step e else none) emptyEnvironment
      events = some s) :
    Reachable StateManagers.Initial StateManagers.step SequencedNodes s :=
  reachable_checked makesNoMachine makesNoMachine_sequenced events emptyEnvironment s
    (.init _ emptyEnvironment_initial) hs

/-- What is collected once events have happened, put to a test. -/
def collectsAfter (events : List (ManagerEvent Nat)) (scope : Option (List String))
    (test : InternalTopology → Except StatusError StatusCommand → Bool) : Bool :=
  match stepAll (fun s e => if makesNoMachine s e then s.step e else none) emptyEnvironment
    events with
  | none => false
  | some s =>
    match (collect .bytes s.topology startedNodes 5 scope).run with
    | none => false
    | some result => test s.topology result

theorem collectsAfter_run (events : List (ManagerEvent Nat)) (scope : Option (List String))
    (test : InternalTopology → Except StatusError StatusCommand → Bool)
    (h : collectsAfter events scope test = true) :
    ∃ (s : StateManagers Nat) (result : Except StatusError StatusCommand),
      Reachable StateManagers.Initial StateManagers.step SequencedNodes s ∧
      (collect .bytes s.topology startedNodes 5 scope).run = some result ∧
      test s.topology result = true := by
  unfold collectsAfter at h
  split at h
  · cases h
  · rename_i s hs
    split at h
    · cases h
    · rename_i result hresult
      exact ⟨s, result, deployed_reachable events s hs, hresult, h⟩

/-- The entry of the unit is there, nested in that of its principal. -/
def nestsLogging (t : InternalTopology) : Except StatusError StatusCommand → Bool
  | .error _ => false
  | .ok r => (t.unitState "service-1" "unit-1").any fun u => decide (u.unitName ∈ r.unitData ∧
      (r.unitData.lookup "mysql/0").any fun x => decide (u.unitName ∈ x.subordinates))

theorem status_lists_units_logging :
    ∃ s : StateManagers Nat, Reachable StateManagers.Initial StateManagers.step SequencedNodes s ∧
      ∃ r u, Returns (collect .bytes s.topology startedNodes 5 none) r ∧
        Handles s.topology none u ∧ r.nesting.nested "mysql/0" u.unitName := by
  obtain ⟨s, result, hrun, hresult, htest⟩ := collectsAfter_run deploysLogging none
    nestsLogging (by decide +kernel)
  cases result with
  | error e => cases htest
  | ok r =>
    obtain ⟨u, hunit, hfound⟩ := (Option.any_eq_true _ _).mp htest
    obtain ⟨hin, hnested⟩ := of_decide_eq_true hfound
    obtain ⟨x, hx, hsub⟩ := (Option.any_eq_true _ _).mp hnested
    have hlists := status_lists_units s hrun .bytes startedNodes none
    exact ⟨s, hrun, r, u, hresult, (hlists.2 5 r hresult _ _ u hunit).mp hin, x, hx,
      of_decide_eq_true hsub⟩

/-- The principal of an entry is not there to be found. -/
def missesPrincipal (_ : InternalTopology) : Except StatusError StatusCommand → Bool
  | .error (.keyError key) => decide (key = "mysql/0")
  | _ => false

/-- The subordinate has its entry, which is nested nowhere. -/
def listsAlone (_ : InternalTopology) : Except StatusError StatusCommand → Bool
  | .error _ => false
  | .ok r => decide ("logging/0" ∈ r.unitData ∧
      (∀ e ∈ r.serviceData.entries, "logging/0" ∉ e.2.units.getD []) ∧
      ∀ e ∈ r.unitData.entries, "logging/0" ∉ e.2.subordinates)

/-- A scope that leaves the principal out, and a principal that goes before its subordinate. -/
theorem status_loses_units :
    (∃ s : StateManagers Nat, Reachable StateManagers.Initial StateManagers.step SequencedNodes s ∧
      (collect .bytes s.topology startedNodes 5 (some ["logging"])).run =
        some (.error (.keyError "mysql/0"))) ∧
    ∃ s : StateManagers Nat, Reachable StateManagers.Initial StateManagers.step SequencedNodes s ∧
      ∃ r, Returns (collect .bytes s.topology startedNodes 5 none) r ∧
        "logging/0" ∈ r.unitData ∧ ¬ r.nesting.Once "logging/0" := by
  constructor
  · obtain ⟨s, result, hrun, hresult, htest⟩ := collectsAfter_run deploysLogging (some ["logging"])
      missesPrincipal (by decide +kernel)
    unfold missesPrincipal at htest
    split at htest
    · obtain rfl := of_decide_eq_true htest
      exact ⟨s, hrun, hresult⟩
    · cases htest
  · obtain ⟨s, result, hrun, hresult, htest⟩ :=
      collectsAfter_run (deploysLogging ++ movesPrincipal) none listsAlone (by decide +kernel)
    cases result with
    | error e => cases htest
    | ok r =>
      obtain ⟨hin, hlisted, hnested⟩ := of_decide_eq_true htest
      refine ⟨s, hrun, r, hresult, hin, Nesting.not_once _ ?_ ?_⟩
      · rintro service ⟨info, units, hinfo, hunits, hname⟩
        apply hlisted ⟨service, info⟩ ((Dict.mem_entries_iff _ _).mpr hinfo)
        rw [hunits]
        exact hname
      · rintro container ⟨u, hu, hname⟩
        exact hnested ⟨container, u⟩ ((Dict.mem_entries_iff _ _).mpr hu) hname

end runs

end Juju.Control
