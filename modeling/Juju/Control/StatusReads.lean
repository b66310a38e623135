import Mathlib.Algebra.Order.BigOperators.Group.List
import Juju.Base.Returns
import Juju.Control.StatusCommand
import Juju.State.ManagerTopologies

namespace Juju.Control
open Juju.Base
open Juju.Lib
open Juju.State

theorem returns_lift {ε α : Type} (f : ε → StatusError) (x : Except ε α) (a : α) :
    Returns (liftExcept f x) a ↔ x = .ok a := by
  rw [liftExcept, returns_mk, Option.some.injEq, mapError_eq_ok]

/-- Fuel that lasts from any unit up to the last of its containers. -/
def Fueled (t : InternalTopology) (fuel : Nat) : Prop :=
  ∃ rank : String → Nat, (∀ sid uid unit c, t.serviceUnit? sid uid = some unit →
      unit.container = some c → rank c < rank uid) ∧
    ∀ sid uid, t.serviceUnit? sid uid ≠ none → rank uid < fuel

theorem fueled_of_ranked (t : InternalTopology) (h : Ranked t) : ∃ fuel, Fueled t fuel := by
  obtain ⟨rank, hrank⟩ := h
  let uids := t.services.entries.flatMap fun e => e.2.units.keys
  refine ⟨(uids.map rank).sum + 1, rank, hrank, fun sid uid hunit => ?_⟩
  obtain ⟨unit, hunit⟩ := Option.ne_none_iff_exists'.mp hunit
  obtain ⟨service, hs, hu⟩ := Option.bind_eq_some_iff.mp hunit
  have hmem : uid ∈ uids := List.mem_flatMap.mpr ⟨⟨sid, service⟩,
    (Dict.mem_entries_iff _ _).mpr hs, AList.mem_keys.mpr ((Dict.mem_iff_lookup _ _).mpr ⟨unit, hu⟩)⟩
  have hle := List.single_le_sum (fun n _ => Nat.zero_le n) (rank uid)
    (List.mem_map_of_mem (f := rank) hmem)
  omega

section reads

variable {t : InternalTopology} (h : ManagerMade t)
include h

/-- A unit's machine is found, at the latest with the last of its containers. -/
theorem getAssignedMachineId_returns (rank : String → Nat)
    (hrank : ∀ sid uid unit c, t.serviceUnit? sid uid = some unit → unit.container = some c →
      rank c < rank uid) (fuel : Nat) (sid uid : String) (u : ServiceUnitState)
    (hu : t.unitState sid uid = some u) (hfuel : rank uid < fuel) :
    ∃ machineId, getAssignedMachineId t fuel u = some (.ok machineId) := by
  induction fuel generalizing sid uid u with
  | zero => exact absurd hfuel (Nat.not_lt_zero _)
  | succ fuel ih =>
    obtain ⟨unit, hunit⟩ := unitState_some sid uid u hu
    obtain ⟨rfl, rfl⟩ := unitState_ids sid uid u hu
    rw [getAssignedMachineId, hunit]
    cases hm : unit.machine with
    | some m =>
      obtain ⟨n, hn⟩ := h.sequenced m (h.integrity.unitMachine _ _ _ _ hunit hm)
      exact ⟨some n, by simp only [hm, hn, publicMachineId_internal]⟩
    | none =>
      rcases getContainer_cases h.integrity _ _ unit u hunit hu with
        ⟨hnone, -⟩ | ⟨c, psid, unit', container, hcontained, -, hstate, hsome⟩
      · exact ⟨none, by simp only [hm, hnone]⟩
      · obtain ⟨sid', unit₂, -, hunit₂, hc, -⟩ := hcontained
        have hlt := hrank sid' _ unit₂ c hunit₂ hc
        obtain ⟨machineId, hfound⟩ := ih psid c container hstate (by omega)
        exact ⟨machineId, by simp only [hm, hsome, hfound]⟩

theorem assignedMachineId_returns (fuel : Nat) (hfuel : Fueled t fuel) (sid uid : String)
    (u : ServiceUnitState) (hu : t.unitState sid uid = some u) :
    ∃ machineId, Returns (assignedMachineId t fuel u) machineId := by
  obtain ⟨rank, hrank, hlt⟩ := hfuel
  obtain ⟨unit, hunit⟩ := unitState_some sid uid u hu
  obtain ⟨machineId, hfound⟩ := getAssignedMachineId_returns h rank hrank fuel sid uid u hu
    (hlt sid uid (by simp [hunit]))
  exact ⟨machineId, by rw [assignedMachineId, returns_mk, hfound]; rfl⟩

theorem getContainer_ok (sid uid : String) (u : ServiceUnitState)
    (hu : t.unitState sid uid = some u) : ∃ container, u.getContainer t = .ok container ∧
      ∀ c ∈ container, ∃ psid cid, t.unitState psid cid = some c := by
  obtain ⟨unit, hunit⟩ := unitState_some sid uid u hu
  rcases getContainer_cases h.integrity sid uid unit u hunit hu with
    ⟨hnone, -⟩ | ⟨c, psid, unit', container, -, -, hstate, hsome⟩
  · exact ⟨none, hnone, by simp⟩
  · exact ⟨some container, hsome, by simpa using ⟨psid, c, hstate⟩⟩

theorem alivePath_ok (r : ServiceRelationState) (sid uid : String) (u : ServiceUnitState)
    (hu : t.unitState sid uid = some u) : ∃ path, r.alivePath t u = .ok path := by
  obtain ⟨container, hcontainer, -⟩ := getContainer_ok h sid uid u hu
  unfold ServiceRelationState.alivePath
  split
  · exact ⟨_, rfl⟩
  · rw [hcontainer]
    exact ⟨_, rfl⟩

theorem unitRelationErrors_ok (nodes : StatusNodes) (relSvcMap : Dict String String)
    (relations : List ServiceRelationState) (errors : Dict String (List String))
    (sid uid : String) (u : ServiceUnitState) (hu : t.unitState sid uid = some u) :
    ∃ errors', unitRelationErrors t nodes u relSvcMap relations errors = .ok errors' := by
  induction relations generalizing errors with
  | nil => exact ⟨errors, rfl⟩
  | cons relation relations ih =>
    obtain ⟨path, hpath⟩ := alivePath_ok h relation sid uid u hu
    simp only [unitRelationErrors, hpath, except_mapError_ok, bind, Except.bind]
    split
    · exact ih _
    · exact ih _

/-- Of the one or two services of a relation, one is the service itself. -/
theorem remoteService_ok (service : ServiceState) (info : Service)
    (hs : t.services.lookup service.internalId = some info) (hname : service.serviceName = info.name)
    (r : ServiceRelationState) (relation : Relation)
    (hr : t.relations.lookup r.internalRelationId = some relation)
    (hin : service.internalId ∈ relation.services) :
    ∃ remote, remoteService t service r = .ok remote := by
  obtain ⟨states, hstates, hids, hnames⟩ :=
    getServiceStates_spec h.integrity r.internalRelationId relation hr
  have hlength := h.paired r.internalRelationId relation hr
  have hown : service.internalId ∈ states.map ServiceState.internalId := by
    rw [hids]
    exact AList.mem_keys.mpr hin
  have hnodup : (states.map ServiceState.internalId).Nodup := by
    rw [hids]
    exact relation.services.nodupKeys
  -- another service of the relation has another name
  have hother : ∀ state ∈ states,
      state.serviceName ≠ service.serviceName ↔ state.internalId ≠ service.internalId := by
    intro state hstate
    obtain ⟨info', hs', hname'⟩ := hnames state hstate
    rw [hname, hname']
    constructor
    · intro hne hid
      rw [hid, hs] at hs'
      exact hne (congrArg Service.name (Option.some.inj hs')).symm
    · exact fun hne hsame => hne (h.integrity.serviceName _ _ _ _ hs' hs hsame)
  rw [← hids, List.length_map] at hlength
  simp only [remoteService, ask_ok _ _ _ _ hstates, except_mapError_ok, bind, Except.bind]
  match states, hlength with
  | [], _ => simp at hown
  | [a], _ => exact ⟨a, by simp⟩
  | [a, b], _ =>
    simp only [List.map_cons, List.map_nil, List.nodup_cons, List.mem_singleton,
      List.not_mem_nil, not_false_eq_true, List.nodup_nil, and_true] at hnodup
    have ha := hother a List.mem_cons_self
    have hb := hother b (List.mem_cons_of_mem _ List.mem_cons_self)
    simp only [List.map_cons, List.map_nil, List.mem_cons, List.not_mem_nil, or_false] at hown
    rcases hown with hown | hown
    · have hdropped : a.serviceName = service.serviceName := by
        by_contra hne
        exact ha.mp hne hown.symm
      have hkept : b.serviceName ≠ service.serviceName :=
        hb.mpr fun heq => hnodup (hown.symm.trans heq.symm)
      exact ⟨b, by simp [hdropped, hkept]⟩
    · have hdropped : b.serviceName = service.serviceName := by
        by_contra hne
        exact hb.mp hne hown.symm
      have hkept : a.serviceName ≠ service.serviceName :=
        ha.mpr fun heq => hnodup (heq.trans hown)
      exact ⟨a, by simp [hdropped, hkept]⟩

omit h in
theorem mapRelations_ok (service : ServiceState) (relations : List ServiceRelationState)
    (hremote : ∀ r ∈ relations, ∃ remote, remoteService t service r = .ok remote)
    (relationData : Dict String (List String)) (relSvcMap : Dict String String) :
    ∃ result, mapRelations t service relations relationData relSvcMap = .ok result := by
  induction relations generalizing relationData relSvcMap with
  | nil => exact ⟨_, rfl⟩
  | cons r relations ih =>
    obtain ⟨remote, hr⟩ := hremote r List.mem_cons_self
    simp only [mapRelations, hr, bind, Except.bind]
    exact ih (fun r hr => hremote r (List.mem_cons_of_mem _ hr)) _ _

/-- The relations of a service are read, and the service at the other end of each is found. -/
theorem relationStates_ok (service : ServiceState) (info : Service)
    (hs : t.services.lookup service.internalId = some info)
    (hname : service.serviceName = info.name) :
    ∃ relations, ask t (relationStatesForService service) = .ok relations ∧
      ∀ r ∈ relations, ∃ remote, remoteService t service r = .ok remote := by
  have hin : service.internalId ∈ t.services := (Dict.mem_iff_lookup _ _).mpr ⟨info, hs⟩
  have hlist : getRelationsForService service.internalId t =
      .ok (t.relationsForService service.internalId) t := by
    rw [getRelationsForService, assertService_bind, if_pos hin]
    rfl
  refine ⟨_, ask_ok _ _ _ _ (by
    rw [relationStatesForService, bind_of_ok _ _ _ _ _ hlist, pure_run]), ?_⟩
  intro r hr
  obtain ⟨listed, hlisted, rfl⟩ := List.mem_map.mp hr
  obtain ⟨e, he, hmap⟩ := List.mem_filterMap.mp hlisted
  obtain ⟨x, hx, rfl⟩ := Option.map_eq_some_iff.mp hmap
  exact remoteService_ok h service info hs hname _ e.2 ((Dict.mem_entries_iff _ _).mp he)
    ((Dict.mem_iff_lookup _ _).mpr ⟨x, hx⟩)

theorem processMachines_ok (nodes : StatusNodes) (machineIds : List String)
    (hin : ∀ m ∈ machineIds, m ∈ t.machines) (s : StatusCommand) :
    ∃ s', processMachines t nodes machineIds s = .ok s' := by
  induction machineIds generalizing s with
  | nil => exact ⟨s, rfl⟩
  | cons m machineIds ih =>
    have hm := hin m List.mem_cons_self
    obtain ⟨n, hn⟩ := h.sequenced m hm
    obtain ⟨units, hunits, -⟩ := getAllServiceUnitStates_spec h.integrity m hm
    have hprocess : ∃ s', processMachine t nodes m n s = .ok s' := by
      unfold processMachine machineAgentState
      rw [ask_ok _ _ _ _ hunits]
      cases (nodes.instanceId m).bind nodes.providerMachine with
      | none => exact ⟨_, rfl⟩
      | some found => cases nodes.machineAgent m <;> exact ⟨_, rfl⟩
    obtain ⟨s₁, hs₁⟩ := hprocess
    have hpublic : publicMachineId m = some n := hn ▸ publicMachineId_internal n
    simp only [processMachines, hpublic, hs₁, bind, Except.bind]
    split
    · exact ih (fun m hm => hin m (List.mem_cons_of_mem _ hm)) s
    · exact ih (fun m hm => hin m (List.mem_cons_of_mem _ hm)) s₁

end reads

/-- What is said of machines leaves what is said of units. -/
theorem processMachines_units (t : InternalTopology) (nodes : StatusNodes)
    (machineIds : List String) (s s' : StatusCommand)
    (h : processMachines t nodes machineIds s = .ok s') :
    s'.serviceData = s.serviceData ∧ s'.unitData = s.unitData := by
  induction machineIds generalizing s with
  | nil =>
    cases h
    exact ⟨rfl, rfl⟩
  | cons m machineIds ih =>
    simp only [processMachines] at h
    split at h
    · cases h
    · rename_i id hid
      split at h
      · exact ih s h
      · obtain ⟨s₁, hs₁, hrest⟩ := (except_bind_eq_ok _ _ _).mp h
        have hsame : s₁.serviceData = s.serviceData ∧ s₁.unitData = s.unitData := by
          unfold processMachine at hs₁
          split at hs₁
          · cases hs₁
            exact ⟨rfl, rfl⟩
          · obtain ⟨agentState, -, hdone⟩ := (except_bind_eq_ok _ _ _).mp hs₁
            cases hdone
            exact ⟨rfl, rfl⟩
        obtain ⟨hservices, hunits⟩ := ih s₁ hrest
        exact ⟨hservices.trans hsame.1, hunits.trans hsame.2⟩

end Juju.Control
