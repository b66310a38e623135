import Juju.State.Deployment
import Juju.State.TopologyConflicts
import Juju.State.UnitChanges

namespace Juju.State
open Juju.Base

/-- A call and how it ends. -/
def runCall (t : InternalTopology) :
    TopologyCall → EStateM.Result TopologyError InternalTopology Unit
  | .addMachine machineId => addMachine machineId t
  | .removeMachine machineId => removeMachine machineId t
  | .addService serviceId serviceName => addService serviceId serviceName t
  | .removeService serviceId => removeService serviceId t
  | .addServiceUnit serviceId unitId containerId =>
    (addServiceUnit serviceId unitId containerId >>= fun _ => pure ()) t
  | .removeServiceUnit serviceId unitId => removeServiceUnit serviceId unitId t
  | .assignServiceUnitToMachine serviceId unitId machineId =>
    assignServiceUnitToMachine serviceId unitId machineId t
  | .unassignServiceUnitFromMachine serviceId unitId =>
    unassignServiceUnitFromMachine serviceId unitId t
  | .addRelation relationId relationType relationScope =>
    addRelation relationId relationType relationScope t
  | .removeRelation relationId => removeRelation relationId t
  | .assignServiceToRelation relationId serviceId name role =>
    assignServiceToRelation relationId serviceId name role t
  | .unassignServiceFromRelation relationId serviceId =>
    unassignServiceFromRelation relationId serviceId t

theorem leaves_run (t : InternalTopology) (c : TopologyCall) : leaves (runCall t c) = call t c := by
  cases c with
  | addServiceUnit serviceId unitId containerId =>
    simp only [runCall, bind_run, call]
    cases addServiceUnit serviceId unitId containerId t with
    | ok n t' => rfl
    | error e t' => rfl
  | _ => rfl

/-- What a call is meant to do. -/
def TopologyCall.change : TopologyCall → DeploymentChange String String
  | .addMachine machineId => .addMachine machineId
  | .removeMachine machineId => .removeMachine machineId
  | .addService serviceId serviceName => .addService serviceId serviceName
  | .removeService serviceId => .removeService serviceId
  | .addServiceUnit serviceId unitId containerId => .addUnit serviceId unitId containerId
  | .removeServiceUnit serviceId unitId => .removeUnit serviceId unitId
  | .assignServiceUnitToMachine serviceId unitId machineId => .assign serviceId unitId machineId
  | .unassignServiceUnitFromMachine serviceId unitId => .unassign serviceId unitId
  | .addRelation relationId relationType relationScope =>
    .addRelation relationId relationType relationScope
  | .removeRelation relationId => .removeRelation relationId
  | .assignServiceToRelation relationId serviceId name role =>
    .join relationId serviceId ⟨name, role⟩
  | .unassignServiceFromRelation relationId serviceId => .leave relationId serviceId

def unitPlace (serviceId : String) (unit : ServiceUnit) : UnitPlace String :=
  ⟨serviceId, unit.sequence.getD 0, unit.container, unit.machine⟩

namespace InternalTopology

variable (t : InternalTopology)

def unitPlace? (unitId : String) : Option (UnitPlace String) :=
  (t.services.entries.find? fun e => unitId ∈ e.2.units).bind fun e =>
    (e.2.units.lookup unitId).map (unitPlace e.1)

/-- What a topology says is deployed. -/
def deployment : Deployment String String where
  machines := {machineId | machineId ∈ t.machines}
  services serviceId := (t.services.lookup serviceId).map Service.name
  units := t.unitPlace?
  relations relationId := (t.relations.lookup relationId).map fun r => (r.interface, r.scope)
  ends relationId serviceId := (t.relations.lookup relationId).bind fun r =>
    (r.services.lookup serviceId).map fun e => ⟨e.name, e.role⟩
  next name := t.unitSequence.lookup name

end InternalTopology

section places

variable {t : InternalTopology} (h : Integrity t)
include h

theorem unitPlace?_unit (serviceId unitId : String) (unit : ServiceUnit)
    (hunit : t.serviceUnit? serviceId unitId = some unit) :
    t.unitPlace? unitId = some (unitPlace serviceId unit) := by
  obtain ⟨service, hs, hu⟩ := Option.bind_eq_some_iff.mp hunit
  rw [InternalTopology.unitPlace?, find_unit h serviceId unitId service unit hs hu]
  simp [hu]

omit h in
theorem unitPlace?_some (unitId : String) (p : UnitPlace String)
    (hp : t.unitPlace? unitId = some p) :
    ∃ sid unit, t.serviceUnit? sid unitId = some unit ∧ p = unitPlace sid unit := by
  obtain ⟨e, he, hp⟩ := Option.bind_eq_some_iff.mp hp
  obtain ⟨unit, hunit, hplace⟩ := Option.map_eq_some_iff.mp hp
  have hs := (Dict.mem_entries_iff _ _).mp (List.mem_of_find?_eq_some he)
  exact ⟨e.1, unit, (serviceUnit?_lookup t e.1 unitId e.2 hs).trans hunit, hplace.symm⟩

theorem unitPlace?_eq_none (unitId : String) :
    t.unitPlace? unitId = none ↔ ∀ sid, t.serviceUnit? sid unitId = none := by
  constructor
  · intro hnone sid
    cases hunit : t.serviceUnit? sid unitId with
    | none => rfl
    | some unit =>
      rw [unitPlace?_unit h sid unitId unit hunit] at hnone
      cases hnone
  · intro hnone
    cases hp : t.unitPlace? unitId with
    | none => rfl
    | some p =>
      obtain ⟨sid, unit, hunit, -⟩ := unitPlace?_some unitId p hp
      rw [hnone] at hunit
      cases hunit

/-- Where the units are the same ones, they stand where they stood. -/
theorem unitPlace?_congr {t' : InternalTopology} (h' : Integrity t') (unitId : String)
    (hsame : ∀ sid, t'.serviceUnit? sid unitId = t.serviceUnit? sid unitId) :
    t'.unitPlace? unitId = t.unitPlace? unitId := by
  cases hp : t.unitPlace? unitId with
  | none =>
    rw [unitPlace?_eq_none h] at hp
    exact (unitPlace?_eq_none h' unitId).mpr fun sid => (hsame sid).trans (hp sid)
  | some p =>
    obtain ⟨sid, unit, hunit, rfl⟩ := unitPlace?_some unitId p hp
    exact unitPlace?_unit h' sid unitId unit ((hsame sid).trans hunit)

/-- One unit of a service is written, and the others stand where they stood. -/
theorem unitPlace?_setUnit {t' : InternalTopology} (h' : Integrity t') (serviceId unitId : String)
    (unit : Option ServiceUnit)
    (honly : ∀ sid, sid ≠ serviceId → t.serviceUnit? sid unitId = none)
    (hunits : ∀ sid uid, t'.serviceUnit? sid uid =
      if sid = serviceId ∧ uid = unitId then unit else t.serviceUnit? sid uid) :
    t'.unitPlace? = Function.update t.unitPlace? unitId (unit.map (unitPlace serviceId)) := by
  funext uid
  by_cases huid : uid = unitId
  · subst huid
    rw [Function.update_self]
    cases unit with
    | some unit =>
      exact unitPlace?_unit h' serviceId uid unit ((hunits _ _).trans (if_pos ⟨rfl, rfl⟩))
    | none =>
      refine (unitPlace?_eq_none h' uid).mpr fun sid => ?_
      rw [hunits]
      split
      · rfl
      · rename_i hother
        exact honly sid fun hsid => hother ⟨hsid, rfl⟩
  · rw [Function.update_of_ne huid]
    exact unitPlace?_congr h h' uid fun sid =>
      (hunits sid uid).trans (if_neg fun hsame => huid hsame.2)

/-- A unit of the service stands where the topology says. -/
theorem placed_iff (serviceId unitId : String) (P : UnitPlace String → Prop) :
    (∃ p, t.unitPlace? unitId = some p ∧ p.service = serviceId ∧ P p) ↔
      ∃ unit, t.serviceUnit? serviceId unitId = some unit ∧ P (unitPlace serviceId unit) := by
  constructor
  · rintro ⟨p, hp, hservice, hP⟩
    obtain ⟨sid, unit, hunit, rfl⟩ := unitPlace?_some unitId p hp
    obtain rfl : sid = serviceId := hservice
    exact ⟨unit, hunit, hP⟩
  · rintro ⟨unit, hunit, hP⟩
    exact ⟨_, unitPlace?_unit h serviceId unitId unit hunit, rfl, hP⟩

end places

/-- A call does to the topology what it is meant to do, and returns just when it may. -/
structure Refines (t : InternalTopology) (c : TopologyCall) : Prop where
  returns : runCall t c = .ok () (call t c) ↔ t.deployment.Allowed "container" c.change
  deployment : (call t c).deployment = t.deployment.change "container" c.change

section refines

variable {t t' : InternalTopology} {c : TopologyCall}

theorem refines_ok (hrun : runCall t c = .ok () t')
    (hallowed : t.deployment.Allowed "container" c.change)
    (hafter : t'.deployment = t.deployment.after c.change) : Refines t c := by
  have hcall : call t c = t' := by rw [← leaves_run, hrun, leaves_ok]
  refine ⟨iff_of_true (hcall ▸ hrun) hallowed, ?_⟩
  rw [Deployment.change_allowed _ _ _ hallowed, hcall, hafter]

theorem refines_error {e : TopologyError} (hrun : runCall t c = .error e t)
    (hrefused : ¬ t.deployment.Allowed "container" c.change) : Refines t c := by
  have hcall : call t c = t := by rw [← leaves_run, hrun, leaves_error]
  refine ⟨iff_of_false (fun hreturns => ?_) hrefused, ?_⟩
  · rw [hrun] at hreturns
    cases hreturns
  · rw [Deployment.change_refused _ _ _ hrefused, hcall]

end refines

section calls

variable (t : InternalTopology)

theorem addMachine_refines (machineId : String) : Refines t (.addMachine machineId) := by
  by_cases hin : machineId ∈ t.machines
  · have hrun : runCall t (.addMachine machineId) = .error (.duplicatedMachine machineId) t := by
      simp [runCall, addMachine, hin]
    exact refines_error hrun fun hnew => hnew hin
  · have hrun : runCall t (.addMachine machineId) =
        .ok () { t with machines := t.machines.insert machineId () } := by
      simp [runCall, addMachine, hin]
    refine refines_ok hrun hin (Deployment.ext ?_ rfl rfl rfl rfl rfl)
    exact Set.ext fun m => AList.mem_insert _

/-- Some unit of the topology is on the machine. -/
theorem hasUnits_iff (machineId : String) :
    (t.services.entries.any fun s => s.2.units.entries.any fun u => u.2.machine = some machineId) =
        true ↔
      ∃ sid uid unit, t.serviceUnit? sid uid = some unit ∧ unit.machine = some machineId := by
  simp only [List.any_eq_true, decide_eq_true_eq]
  constructor
  · rintro ⟨⟨sid, service⟩, hs, ⟨uid, unit⟩, hu, hm⟩
    have hlookup := serviceUnit?_lookup t sid uid service ((Dict.mem_entries_iff _ _).mp hs)
    exact ⟨sid, uid, unit, hlookup.trans ((Dict.mem_entries_iff _ _).mp hu), hm⟩
  · rintro ⟨sid, uid, unit, hunit, hm⟩
    obtain ⟨service, hs, hu⟩ := Option.bind_eq_some_iff.mp hunit
    exact ⟨⟨sid, service⟩, (Dict.mem_entries_iff _ _).mpr hs, ⟨uid, unit⟩,
      (Dict.mem_entries_iff _ _).mpr hu, hm⟩

theorem removeMachine_refines (h : Integrity t) (machineId : String) :
    Refines t (.removeMachine machineId) := by
  by_cases hin : machineId ∈ t.machines
  · by_cases hunits : (t.services.entries.any fun s =>
        s.2.units.entries.any fun u => u.2.machine = some machineId) = true
    · have hrun : runCall t (.removeMachine machineId) = .error (.machineHasUnits machineId) t := by
        simp only [runCall, removeMachine, machineHasUnits, bind_assoc, assertMachine_bind,
          get_bind, pure_bind, raiseIf_bind, if_pos hin, if_pos hunits]
      refine refines_error hrun fun hallowed => ?_
      obtain ⟨sid, uid, unit, hunit, hm⟩ := (hasUnits_iff t machineId).mp hunits
      exact hallowed.2 uid _ (unitPlace?_unit h sid uid unit hunit) hm
    · have hrun : runCall t (.removeMachine machineId) =
          .ok () { t with machines := t.machines.erase machineId } := by
        simp only [runCall, removeMachine, machineHasUnits, bind_assoc, assertMachine_bind,
          get_bind, pure_bind, raiseIf_bind, if_pos hin, if_neg hunits]
        rfl
      refine refines_ok hrun ⟨hin, fun uid p hp hm => ?_⟩
        (Deployment.ext ?_ rfl rfl rfl rfl rfl)
      · obtain ⟨sid, unit, hunit, rfl⟩ := unitPlace?_some uid p hp
        exact hunits ((hasUnits_iff t machineId).mpr ⟨sid, uid, unit, hunit, hm⟩)
      · ext m
        show m ∈ t.machines.erase machineId ↔ m ∈ t.machines ∧ m ∉ ({machineId} : Set String)
        rw [AList.mem_erase, Set.mem_singleton_iff, and_comm]
  · have hrun : runCall t (.removeMachine machineId) = .error (.machineNotFound machineId) t := by
      simp only [runCall, removeMachine, assertMachine_bind, if_neg hin]
    exact refines_error hrun fun hallowed => hin hallowed.1

theorem addService_refines (h : Integrity t) (serviceId serviceName : String) :
    Refines t (.addService serviceId serviceName) := by
  by_cases hin : serviceId ∈ t.services
  · have hrun : runCall t (.addService serviceId serviceName) =
        .error (.duplicatedService serviceId) t := by
      simp only [runCall, addService, get_bind, raiseIf_bind, if_pos hin]
    refine refines_error hrun fun hallowed => ?_
    obtain ⟨service, hs⟩ := (Dict.mem_iff_lookup _ _).mp hin
    have hnone : (t.services.lookup serviceId).map Service.name = none := hallowed.1
    rw [hs] at hnone
    cases hnone
  have hlookup : t.services.lookup serviceId = none := AList.lookup_eq_none.mpr hin
  by_cases hused : (t.services.entries.any fun e => e.2.name = serviceName) = true
  · have hrun : runCall t (.addService serviceId serviceName) =
        .error (.serviceNameInUse serviceName) t := by
      simp only [runCall, addService, get_bind, raiseIf_bind, if_neg hin, if_pos hused]
    refine refines_error hrun fun hallowed => ?_
    obtain ⟨e, he, hname⟩ := List.any_eq_true.mp hused
    apply hallowed.2 e.1
    show (t.services.lookup e.1).map Service.name = some serviceName
    rw [(Dict.mem_entries_iff _ _).mp he, Option.map_some, of_decide_eq_true hname]
  · have hallowed : t.deployment.Allowed "container" (.addService serviceId serviceName) := by
      refine ⟨?_, fun sid hname => hused ?_⟩
      · show (t.services.lookup serviceId).map Service.name = none
        rw [hlookup, Option.map_none]
      · obtain ⟨service, hs, hname⟩ := Option.map_eq_some_iff.mp hname
        exact List.any_eq_true.mpr ⟨⟨sid, service⟩, (Dict.mem_entries_iff _ _).mpr hs, by simpa⟩
    let sequences := if serviceName ∉ t.unitSequence then t.unitSequence.insert serviceName 0
      else t.unitSequence
    have hrun : runCall t (.addService serviceId serviceName) = .ok () { t with
        services := t.services.insert serviceId ⟨serviceName, ∅⟩, unitSequence := sequences } := by
      simp only [runCall, addService, get_bind, raiseIf_bind, modify_bind, if_neg hin, if_neg hused,
        sequences]
      split
      · rfl
      · rfl
    have hcall : call t (.addService serviceId serviceName) = _ :=
      (leaves_run t _).symm.trans (congrArg leaves hrun)
    have h' := hcall ▸ call_integrity h (.addService serviceId serviceName)
    refine refines_ok hrun hallowed (Deployment.ext rfl ?_ ?_ rfl rfl ?_)
    · funext sid
      show ((t.services.insert serviceId ⟨serviceName, ∅⟩).lookup sid).map Service.name =
        Function.update (fun sid => (t.services.lookup sid).map Service.name) serviceId
          (some serviceName) sid
      rw [Dict.lookup_insert, Function.update_apply]
      split
      · rfl
      · rfl
    · funext uid
      exact unitPlace?_congr h h' uid fun sid =>
        serviceUnit?_newService t serviceId serviceName sequences hin sid uid
    · funext name
      show sequences.lookup name = Function.update (fun name => t.unitSequence.lookup name)
        serviceName (some ((t.unitSequence.lookup serviceName).getD 0)) name
      rw [Function.update_apply]
      by_cases hfirst : serviceName ∉ t.unitSequence
      · simp only [sequences, if_pos hfirst, Dict.lookup_insert, AList.lookup_eq_none.mpr hfirst,
          Option.getD_none]
      · obtain ⟨n, hn⟩ := (Dict.mem_iff_lookup _ _).mp (not_not.mp hfirst)
        simp only [sequences, if_neg hfirst, hn, Option.getD_some]
        split
        · rename_i hname
          rw [hname, hn]
        · rfl

/-- A service that is written under the name it has. -/
theorem services_renamed (serviceId : String) (service : Service) (units : Dict String ServiceUnit)
    (hs : t.services.lookup serviceId = some service) :
    (fun sid => ((t.services.insert serviceId { service with units := units }).lookup sid).map
      Service.name) = t.deployment.services := by
  funext sid
  show _ = (t.services.lookup sid).map Service.name
  rw [Dict.lookup_insert]
  split
  · rename_i hsid
    rw [hsid, hs]
    rfl
  · rfl

theorem mem_services_iff (serviceId : String) :
    serviceId ∈ t.services ↔ t.deployment.services serviceId ≠ none := by
  show _ ↔ (t.services.lookup serviceId).map Service.name ≠ none
  rw [ne_eq, Option.map_eq_none_iff, AList.lookup_eq_none, not_not]

theorem mem_relations_iff (relationId : String) :
    relationId ∈ t.relations ↔ t.deployment.relations relationId ≠ none := by
  show _ ↔ (t.relations.lookup relationId).map _ ≠ none
  rw [ne_eq, Option.map_eq_none_iff, AList.lookup_eq_none, not_not]

theorem ends_relation (relationId : String) (relation : Relation)
    (hr : t.relations.lookup relationId = some relation) (serviceId : String) :
    t.deployment.ends relationId serviceId =
      (relation.services.lookup serviceId).map fun e => ⟨e.name, e.role⟩ := by
  show (t.relations.lookup relationId).bind _ = _
  rw [hr, Option.bind_some]

/-- The relations that have an end at the service. -/
theorem ends_iff (relationId serviceId : String) :
    t.deployment.ends relationId serviceId ≠ none ↔
      ∃ relation, t.relations.lookup relationId = some relation ∧
        serviceId ∈ relation.services := by
  constructor
  · intro hends
    obtain ⟨e, he⟩ := Option.ne_none_iff_exists'.mp hends
    obtain ⟨relation, hr, hservice⟩ := Option.bind_eq_some_iff.mp he
    obtain ⟨x, hx, -⟩ := Option.map_eq_some_iff.mp hservice
    exact ⟨relation, hr, (Dict.mem_iff_lookup _ _).mpr ⟨x, hx⟩⟩
  · intro hends
    obtain ⟨relation, hr, hin⟩ := hends
    obtain ⟨x, hx⟩ := (Dict.mem_iff_lookup _ _).mp hin
    rw [ends_relation t relationId relation hr, hx]
    exact Option.some_ne_none _

theorem relationsForService_eq_nil (serviceId : String) :
    t.relationsForService serviceId = [] ↔ ∀ r, t.deployment.ends r serviceId = none := by
  rw [InternalTopology.relationsForService, List.filterMap_eq_nil_iff]
  constructor
  · intro hnone r
    cases hr : t.relations.lookup r with
    | none =>
      show (t.relations.lookup r).bind _ = none
      rw [hr, Option.bind_none]
    | some relation =>
      have hentry := hnone ⟨r, relation⟩ ((Dict.mem_entries_iff _ _).mpr hr)
      rw [ends_relation t r relation hr, Option.map_eq_none_iff.mp hentry, Option.map_none]
  · intro hnone e he
    have hends := hnone e.1
    rw [ends_relation t e.1 e.2 ((Dict.mem_entries_iff _ _).mp he)] at hends
    rw [Option.map_eq_none_iff.mp hends, Option.map_none]

theorem removeService_refines (h : Integrity t) (serviceId : String) :
    Refines t (.removeService serviceId) := by
  by_cases hin : serviceId ∈ t.services
  · by_cases hfree : t.relationsForService serviceId = []
    · have hrun : runCall t (.removeService serviceId) =
          .ok () { t with services := t.services.erase serviceId } := by
        simp only [runCall, removeService, getRelationsForService, bind_assoc, assertService_bind,
          get_bind, pure_bind, raiseIf_bind, modify_run, if_pos hin, hfree]
        rfl
      refine refines_ok hrun
        ⟨(mem_services_iff t serviceId).mp hin, (relationsForService_eq_nil t serviceId).mp hfree⟩
        (Deployment.ext rfl ?_ ?_ rfl rfl rfl)
      · funext sid
        show ((t.services.erase serviceId).lookup sid).map Service.name =
          Function.update (fun sid => (t.services.lookup sid).map Service.name) serviceId none sid
        rw [Dict.lookup_erase, Function.update_apply]
        split
        · rfl
        · rfl
      · funext uid
        have h' := integrity_freeService h serviceId hfree
        have hunit (sid : String) := serviceUnit?_erase t
          { t with services := t.services.erase serviceId } serviceId sid uid rfl
        show InternalTopology.unitPlace? _ uid = (t.unitPlace? uid).filter _
        cases hp : t.unitPlace? uid with
        | none =>
          rw [unitPlace?_eq_none h] at hp
          refine (unitPlace?_eq_none h' uid).mpr fun sid => ?_
          rw [hunit, hp, ite_self]
        | some p =>
          obtain ⟨sid, unit, hu, rfl⟩ := unitPlace?_some uid p hp
          by_cases hsid : sid = serviceId
          · rw [Option.filter_some_neg (by simp [unitPlace, hsid])]
            refine (unitPlace?_eq_none h' uid).mpr fun other => ?_
            rw [hunit]
            split
            · rfl
            · rename_i hother
              cases hothers : t.serviceUnit? other uid with
              | none => rfl
              | some unit' =>
                exact absurd ((h.unitService other sid uid unit' unit hothers hu).trans hsid) hother
          · rw [Option.filter_some_pos (by simp [unitPlace, hsid])]
            exact unitPlace?_unit h' sid uid unit ((hunit sid).trans ((if_neg hsid).trans hu))
    · have hrun : runCall t (.removeService serviceId) = .error (.serviceInRelations serviceId
          ((t.relationsForService serviceId).map ServiceRelation.relationId)) t := by
        simp only [runCall, removeService, getRelationsForService, bind_assoc, assertService_bind,
          get_bind, pure_bind, raiseIf_bind, if_pos hin, ne_eq, hfree, not_false_eq_true, if_true]
      exact refines_error hrun fun hallowed =>
        hfree ((relationsForService_eq_nil t serviceId).mpr hallowed.2)
  · have hrun : runCall t (.removeService serviceId) = .error (.serviceNotFound serviceId) t := by
      simp only [runCall, removeService, assertService_bind, if_neg hin]
    exact refines_error hrun fun hallowed => hin ((mem_services_iff t serviceId).mpr hallowed.1)

theorem hosts_iff (h : Integrity t) (serviceId containerId : String) :
    t.deployment.Hosts "container" containerId serviceId ↔
      ContainerRelated t serviceId containerId := by
  constructor
  · intro hhosts
    obtain ⟨p, r, interface, hp, hr, hprincipal, hends⟩ := hhosts
    obtain ⟨psid, unit, hunit, rfl⟩ := unitPlace?_some containerId p hp
    obtain ⟨relation, hr, hscope⟩ := Option.map_eq_some_iff.mp hr
    obtain ⟨_, hprincipal, hpin⟩ := (ends_iff t r psid).mp hprincipal
    obtain ⟨_, hends, hin⟩ := (ends_iff t r serviceId).mp hends
    rw [hr] at hprincipal hends
    obtain rfl := Option.some.inj hprincipal
    obtain rfl := Option.some.inj hends
    exact ⟨psid, r, relation, hunit ▸ Option.some_ne_none unit, hr, (Prod.mk.inj hscope).2, hpin,
      hin⟩
  · intro hrelated
    obtain ⟨psid, r, relation, hpsid, hr, hscope, hpin, hin⟩ := hrelated
    obtain ⟨unit, hunit⟩ := Option.ne_none_iff_exists'.mp hpsid
    have hinterface : t.deployment.relations r = some (relation.interface, "container") := by
      show (t.relations.lookup r).map _ = _
      rw [hr, Option.map_some, hscope]
    exact ⟨_, r, relation.interface, unitPlace?_unit h psid containerId unit hunit, hinterface,
      (ends_iff t r psid).mpr ⟨relation, hr, hpin⟩,
      (ends_iff t r serviceId).mpr ⟨relation, hr, hin⟩⟩

/-- A container that passes the check is related. -/
theorem checkContainer_related (serviceId containerId : String)
    (hok : checkContainer serviceId containerId t = .ok () t) :
    ContainerRelated t serviceId containerId := by
  simp only [checkContainer, getServiceUnitService, getRelationsForService, bind_assoc,
    get_bind] at hok
  cases hfind : t.services.entries.find? fun e => containerId ∈ e.2.units with
  | none =>
    rw [hfind] at hok
    cases hok
  | some e =>
    have hs := (Dict.mem_entries_iff t.services e).mp (List.mem_of_find?_eq_some hfind)
    have hin : containerId ∈ e.2.units := by simpa using List.find?_some hfind
    obtain ⟨unit, hu⟩ := (Dict.mem_iff_lookup _ _).mp hin
    rw [hfind] at hok
    simp only [pure_bind, assertService_bind, get_bind, raiseIf_bind] at hok
    split at hok
    · split at hok
      · cases hok
      · rename_i hfound
        obtain ⟨listed, hlisted, hscope⟩ := List.any_eq_true.mp (not_not.mp hfound)
        obtain ⟨hprincipal, hscope⟩ := of_decide_eq_true hscope
        obtain ⟨r, hr, hservice⟩ := List.mem_filterMap.mp hlisted
        obtain ⟨x, hx, rfl⟩ := Option.map_eq_some_iff.mp hservice
        have hrelation := (Dict.mem_entries_iff t.relations r).mp hr
        simp only [InternalTopology.relationHasService, InternalTopology.relationScope?, hrelation,
          decide_eq_true_eq, Option.map_some, Option.some.injEq] at hprincipal hscope
        refine ⟨e.1, r.1, r.2, ?_, hrelation, hscope, hprincipal,
          (Dict.mem_iff_lookup _ _).mpr ⟨x, hx⟩⟩
        rw [serviceUnit?_lookup t e.1 containerId e.2 hs, hu]
        exact Option.some_ne_none unit
    · cases hok

theorem addServiceUnit_refines (h : Integrity t) (serviceId unitId : String)
    (containerId : Option String) : Refines t (.addServiceUnit serviceId unitId containerId) := by
  rcases addServiceUnit_cases serviceId unitId containerId t with
    ⟨e, hraises⟩ | ⟨service, hs, hnew, hcontainer, hnumbers⟩
  · have hrun : runCall t (.addServiceUnit serviceId unitId containerId) = .error e t := by
      simp only [runCall, bind, EStateM.bind, hraises]
    refine refines_error hrun fun hallowed => ?_
    obtain ⟨hin, hnew, hhosts⟩ := hallowed
    have hunnamed : ¬ t.Names .unit unitId := fun hnamed => by
      obtain ⟨sid, hunit⟩ := hnamed
      rw [(unitPlace?_eq_none h unitId).mp hnew sid] at hunit
      exact hunit rfl
    obtain ⟨n, t', hok⟩ := addServiceUnit_succeeds h serviceId unitId containerId
      ((mem_services_iff t serviceId).mpr hin) hunnamed
      fun c hc => (hosts_iff t h serviceId c).mp (hhosts c hc)
    rw [hraises] at hok
    cases hok
  · obtain ⟨n, hn⟩ := (Dict.mem_iff_lookup _ _).mp (h.serviceCounter serviceId service hs)
    have hrun : runCall t (.addServiceUnit serviceId unitId containerId) = .ok () { t with
        services := t.services.insert serviceId
          { service with units := service.units.insert unitId ⟨some n, containerId, none⟩ },
        unitSequence := t.unitSequence.insert service.name (n + 1) } := by
      simp only [runCall, bind, EStateM.bind, hnumbers, numberUnit_run _ _ _ _ _ _ hs hn]
      rfl
    have h' := integrity_addUnit h serviceId unitId containerId service n hs hn hnew
    have hname : t.deployment.services serviceId = some service.name := by
      show (t.services.lookup serviceId).map Service.name = _
      rw [hs, Option.map_some]
    have hnext : t.deployment.next service.name = some n := hn
    have hallowed : t.deployment.Allowed "container"
        (.addUnit serviceId unitId containerId) :=
      ⟨hname ▸ Option.some_ne_none _, (unitPlace?_eq_none h unitId).mpr hnew, fun c hc =>
        (hosts_iff t h serviceId c).mpr (checkContainer_related t serviceId c (hcontainer c hc))⟩
    refine refines_ok hrun hallowed ?_
    simp only [TopologyCall.change, Deployment.after, hname, hnext, Option.getD_some]
    refine Deployment.ext rfl (services_renamed t serviceId service _ hs) ?_ rfl rfl ?_
    · exact unitPlace?_setUnit h h' serviceId unitId (some ⟨some n, containerId, none⟩)
        (fun sid _ => hnew sid) (serviceUnit?_setUnit t _ serviceId unitId service _ _ hs rfl
          fun uid => Dict.lookup_insert service.units unitId uid _)
    · funext name
      show (t.unitSequence.insert service.name (n + 1)).lookup name =
        Function.update (fun name => t.unitSequence.lookup name) service.name (some (n + 1)) name
      rw [Dict.lookup_insert, Function.update_apply]

/-- A unit has one service. -/
theorem unit_elsewhere (h : Integrity t) (serviceId unitId : String) (unit : ServiceUnit)
    (hunit : t.serviceUnit? serviceId unitId = some unit) (sid : String) (hsid : sid ≠ serviceId) :
    t.serviceUnit? sid unitId = none := by
  cases hother : t.serviceUnit? sid unitId with
  | none => rfl
  | some other => exact absurd (h.unitService sid serviceId unitId other unit hother hunit) hsid

/-- The unit that a call names is there. -/
theorem unit_iff (h : Integrity t) (serviceId unitId : String) :
    (∃ p, t.deployment.units unitId = some p ∧ p.service = serviceId) ↔
      t.serviceUnit? serviceId unitId ≠ none := by
  have hplaced := placed_iff h serviceId unitId fun _ => True
  simp only [and_true] at hplaced
  exact hplaced.trans Option.ne_none_iff_exists'.symm

/-- A unit that is there passes its check. -/
theorem assertServiceUnit_found {α : Type} (serviceId unitId : String) (f : Unit → TopologyM α)
    (hthere : t.serviceUnit? serviceId unitId ≠ none) :
    (assertServiceUnit serviceId unitId >>= f) t = f () t := by
  rw [assertServiceUnit_bind, if_pos (mem_services_of_unit serviceId unitId hthere), if_neg hthere]

theorem assertServiceUnit_missing {α : Type} (serviceId unitId : String)
    (hnone : t.serviceUnit? serviceId unitId = none) :
    ∃ e, ∀ f : Unit → TopologyM α, (assertServiceUnit serviceId unitId >>= f) t = .error e t := by
  by_cases hin : serviceId ∈ t.services
  · refine ⟨.serviceUnitNotFound unitId serviceId, fun f => ?_⟩
    rw [assertServiceUnit_bind, if_pos hin, if_pos hnone]
  · refine ⟨.serviceNotFound serviceId, fun f => ?_⟩
    rw [assertServiceUnit_bind, if_neg hin]

theorem removeServiceUnit_refines (h : Integrity t) (serviceId unitId : String) :
    Refines t (.removeServiceUnit serviceId unitId) := by
  by_cases hnone : t.serviceUnit? serviceId unitId = none
  · obtain ⟨e, hraises⟩ := assertServiceUnit_missing t serviceId unitId hnone
    have hrun : runCall t (.removeServiceUnit serviceId unitId) = .error e t := hraises _
    exact refines_error hrun fun hallowed => (unit_iff t h serviceId unitId).mp hallowed hnone
  · obtain ⟨unit, hunit⟩ := Option.ne_none_iff_exists'.mp hnone
    obtain ⟨service, hs, hu⟩ := Option.bind_eq_some_iff.mp hunit
    have hrun : runCall t (.removeServiceUnit serviceId unitId) = .ok () { t with
        services := t.services.insert serviceId
          { service with units := service.units.erase unitId } } := by
      rw [runCall, removeServiceUnit, assertServiceUnit_found t serviceId unitId _ hnone,
        modifyService_run _ _ _ _ hs]
    have h' := integrity_removeUnit h serviceId unitId service hs
    refine refines_ok hrun ((unit_iff t h serviceId unitId).mpr hnone)
      (Deployment.ext rfl (services_renamed t serviceId service _ hs) ?_ rfl rfl rfl)
    exact unitPlace?_setUnit h h' serviceId unitId none
      (unit_elsewhere t h serviceId unitId unit hunit)
      (serviceUnit?_setUnit t _ serviceId unitId service _ none hs rfl
        fun uid => Dict.lookup_erase service.units unitId uid)

/-- A machine is written for a unit that is there. -/
theorem setMachine_deployment (h : Integrity t) (serviceId unitId : String) (service : Service)
    (unit : ServiceUnit) (machine : Option String) (hs : t.services.lookup serviceId = some service)
    (hu : service.units.lookup unitId = some unit)
    (hin : ∀ m, machine = some m → m ∈ t.machines) :
    InternalTopology.deployment { t with
      services := t.services.insert serviceId { service with
        units := service.units.insert unitId { unit with machine := machine } } } =
      t.deployment.setMachine unitId machine := by
  have hunit := (serviceUnit?_lookup t serviceId unitId service hs).trans hu
  have h' := integrity_setMachine h serviceId unitId service unit machine hs hu hin
  have hplace : t.deployment.units unitId = some (unitPlace serviceId unit) :=
    unitPlace?_unit h serviceId unitId unit hunit
  refine Deployment.ext rfl (services_renamed t serviceId service _ hs) ?_ rfl rfl rfl
  rw [Deployment.setMachine, hplace]
  exact unitPlace?_setUnit h h' serviceId unitId (some { unit with machine := machine })
    (unit_elsewhere t h serviceId unitId unit hunit)
    (serviceUnit?_setUnit t _ serviceId unitId service _ _ hs rfl
      fun uid => Dict.lookup_insert service.units unitId uid _)

theorem assignServiceUnitToMachine_refines (h : Integrity t) (serviceId unitId machineId : String) :
    Refines t (.assignServiceUnitToMachine serviceId unitId machineId) := by
  have hplaced := placed_iff h serviceId unitId fun p => p.machine = none
  cases hunit : t.serviceUnit? serviceId unitId with
  | none =>
    obtain ⟨e, hraises⟩ := assertServiceUnit_missing t serviceId unitId hunit
    have hrun : runCall t (.assignServiceUnitToMachine serviceId unitId machineId) = .error e t :=
      hraises _
    refine refines_error hrun fun hallowed => ?_
    obtain ⟨unit, hu, -⟩ := hplaced.mp hallowed.1
    rw [hunit] at hu
    cases hu
  | some unit =>
    obtain ⟨service, hs, hu⟩ := Option.bind_eq_some_iff.mp hunit
    have hthere : t.serviceUnit? serviceId unitId ≠ none := hunit ▸ Option.some_ne_none unit
    by_cases hm : machineId ∈ t.machines
    swap
    · have hrun : runCall t (.assignServiceUnitToMachine serviceId unitId machineId) =
          .error (.machineNotFound machineId) t := by
        rw [runCall, assignServiceUnitToMachine,
          assertServiceUnit_found t serviceId unitId _ hthere, assertMachine_bind, if_neg hm]
      exact refines_error hrun fun hallowed => hm hallowed.2
    cases hmachine : unit.machine with
    | some m =>
      have hrun : runCall t (.assignServiceUnitToMachine serviceId unitId machineId) =
          .error (.unitAlreadyAssigned unitId serviceId) t := by
        rw [runCall, assignServiceUnitToMachine,
          assertServiceUnit_found t serviceId unitId _ hthere, assertMachine_bind, if_pos hm,
          get_bind, raiseIf_bind, hunit, Option.bind_some, hmachine, if_pos Option.isSome_some]
      refine refines_error hrun fun hallowed => ?_
      obtain ⟨unit', hunit', hfree⟩ := hplaced.mp hallowed.1
      rw [hunit] at hunit'
      obtain rfl := Option.some.inj hunit'
      exact absurd (hmachine.symm.trans hfree) (by simp)
    | none =>
      have hrun : runCall t (.assignServiceUnitToMachine serviceId unitId machineId) =
          .ok () { t with
            services := t.services.insert serviceId { service with
              units := service.units.insert unitId { unit with machine := some machineId } } } := by
        rw [runCall, assignServiceUnitToMachine,
          assertServiceUnit_found t serviceId unitId _ hthere, assertMachine_bind, if_pos hm,
          get_bind, raiseIf_bind, hunit, Option.bind_some, hmachine, if_neg (by simp),
          modifyUnit_run _ _ _ _ _ _ hs hu]
      exact refines_ok hrun ⟨hplaced.mpr ⟨unit, hunit, hmachine⟩, hm⟩
        (setMachine_deployment t h serviceId unitId service unit (some machineId) hs hu
          fun m hm' => Option.some.inj hm' ▸ hm)

theorem unassignServiceUnitFromMachine_refines (h : Integrity t) (serviceId unitId : String) :
    Refines t (.unassignServiceUnitFromMachine serviceId unitId) := by
  have hplaced := placed_iff h serviceId unitId fun p => p.machine ≠ none
  cases hunit : t.serviceUnit? serviceId unitId with
  | none =>
    obtain ⟨e, hraises⟩ := assertServiceUnit_missing t serviceId unitId hunit
    have hrun : runCall t (.unassignServiceUnitFromMachine serviceId unitId) = .error e t :=
      hraises _
    refine refines_error hrun fun hallowed => ?_
    obtain ⟨unit, hu, -⟩ := hplaced.mp hallowed
    rw [hunit] at hu
    cases hu
  | some unit =>
    obtain ⟨service, hs, hu⟩ := Option.bind_eq_some_iff.mp hunit
    have hthere : t.serviceUnit? serviceId unitId ≠ none := hunit ▸ Option.some_ne_none unit
    cases hmachine : unit.machine with
    | none =>
      have hrun : runCall t (.unassignServiceUnitFromMachine serviceId unitId) =
          .error (.unitNotAssigned serviceId unitId) t := by
        rw [runCall, unassignServiceUnitFromMachine,
          assertServiceUnit_found t serviceId unitId _ hthere, get_bind, raiseIf_bind, hunit,
          Option.bind_some, hmachine, if_pos Option.isNone_none]
      refine refines_error hrun fun hallowed => ?_
      obtain ⟨unit', hunit', hplace⟩ := hplaced.mp hallowed
      rw [hunit] at hunit'
      obtain rfl := Option.some.inj hunit'
      exact hplace hmachine
    | some m =>
      have hrun : runCall t (.unassignServiceUnitFromMachine serviceId unitId) =
          .ok () { t with
            services := t.services.insert serviceId { service with
              units := service.units.insert unitId { unit with machine := none } } } := by
        rw [runCall, unassignServiceUnitFromMachine,
          assertServiceUnit_found t serviceId unitId _ hthere, get_bind, raiseIf_bind, hunit,
          Option.bind_some, hmachine, if_neg (by simp), modifyUnit_run _ _ _ _ _ _ hs hu]
      have hplace : (unitPlace serviceId unit).machine ≠ none := by
        show unit.machine ≠ none
        rw [hmachine]
        exact Option.some_ne_none m
      exact refines_ok hrun (hplaced.mpr ⟨unit, hunit, hplace⟩)
        (setMachine_deployment t h serviceId unitId service unit none hs hu (by simp))

theorem addRelation_refines (relationId relationType relationScope : String) :
    Refines t (.addRelation relationId relationType relationScope) := by
  by_cases hin : relationId ∈ t.relations
  · have hrun : runCall t (.addRelation relationId relationType relationScope) =
        .error (.relationIdInUse relationId) t := by
      simp only [runCall, addRelation, get_bind, raiseIf_bind, if_pos hin]
    exact refines_error hrun fun hallowed => (mem_relations_iff t relationId).mp hin hallowed
  · have hnone : t.relations.lookup relationId = none := AList.lookup_eq_none.mpr hin
    have hallowed : t.deployment.relations relationId = none :=
      not_not.mp fun hsome => hin ((mem_relations_iff t relationId).mpr hsome)
    refine refines_ok (addRelation_succeeds relationId relationType relationScope hin) hallowed
      (Deployment.ext rfl rfl rfl ?_ ?_ rfl)
    · funext r
      show ((t.relations.insert relationId _).lookup r).map _ =
        Function.update t.deployment.relations relationId _ r
      rw [Dict.lookup_insert, Function.update_apply]
      split
      · rfl
      · rfl
    · -- A relation that was not there had no ends, and gets none.
      funext r sid
      show ((t.relations.insert relationId _).lookup r).bind _ = (t.relations.lookup r).bind _
      rw [Dict.lookup_insert]
      split
      · rename_i hr
        rw [hr, hnone]
        rfl
      · rfl

theorem removeRelation_refines (relationId : String) : Refines t (.removeRelation relationId) := by
  by_cases hin : relationId ∈ t.relations
  · have hrun : runCall t (.removeRelation relationId) =
        .ok () { t with relations := t.relations.erase relationId } := by
      simp only [runCall, removeRelation, assertRelation_bind, modify_run, if_pos hin]
    refine refines_ok hrun ((mem_relations_iff t relationId).mp hin)
      (Deployment.ext rfl rfl rfl ?_ ?_ rfl)
    · funext r
      show ((t.relations.erase relationId).lookup r).map _ =
        Function.update t.deployment.relations relationId _ r
      rw [Dict.lookup_erase, Function.update_apply]
      split
      · rfl
      · rfl
    · funext r
      show _ = Function.update t.deployment.ends relationId (fun _ => none) r
      rw [Function.update_apply]
      funext sid
      show ((t.relations.erase relationId).lookup r).bind _ = _
      rw [Dict.lookup_erase]
      split
      · rfl
      · rfl
  · have hrun : runCall t (.removeRelation relationId) =
        .error (.relationNotFound relationId) t := by
      simp only [runCall, removeRelation, assertRelation_bind, if_neg hin]
    exact refines_error hrun fun hallowed => hin ((mem_relations_iff t relationId).mpr hallowed)

/-- One end of a relation is written, and the others are as they were. -/
theorem setEnd_deployment (relationId serviceId : String) (relation : Relation)
    (services : Dict String RelationService) (x : Option RelationService)
    (hr : t.relations.lookup relationId = some relation)
    (hservices : ∀ sid, services.lookup sid =
      if sid = serviceId then x else relation.services.lookup sid) :
    InternalTopology.deployment { t with
      relations := t.relations.insert relationId { relation with services := services } } =
      { t.deployment with
        ends := Function.update t.deployment.ends relationId
          (Function.update (t.deployment.ends relationId) serviceId
            (x.map fun e => ⟨e.name, e.role⟩)) } := by
  refine Deployment.ext rfl rfl rfl ?_ ?_ rfl
  · funext r
    show ((t.relations.insert relationId _).lookup r).map _ = (t.relations.lookup r).map _
    rw [Dict.lookup_insert]
    split
    · rename_i hsame
      rw [hsame, hr]
      rfl
    · rfl
  · funext r sid
    show ((t.relations.insert relationId _).lookup r).bind _ =
      Function.update t.deployment.ends relationId _ r sid
    rw [Dict.lookup_insert, Function.update_apply]
    split
    · rw [Option.bind_some, Function.update_apply, hservices]
      split
      · rfl
      · exact (ends_relation t relationId relation hr sid).symm
    · rfl

theorem assignServiceToRelation_refines (relationId serviceId name role : String) :
    Refines t (.assignServiceToRelation relationId serviceId name role) := by
  by_cases hservice : serviceId ∈ t.services
  swap
  · have hrun : runCall t (.assignServiceToRelation relationId serviceId name role) =
        .error (.serviceNotFound serviceId) t := by
      simp only [runCall, assignServiceToRelation, assertService_bind, if_neg hservice]
    exact refines_error hrun fun hallowed =>
      hservice ((mem_services_iff t serviceId).mpr hallowed.1)
  by_cases hrelation : relationId ∈ t.relations
  swap
  · have hrun : runCall t (.assignServiceToRelation relationId serviceId name role) =
        .error (.relationNotFound relationId) t := by
      simp only [runCall, assignServiceToRelation, assertService_bind, if_pos hservice,
        assertRelation_bind, if_neg hrelation]
    exact refines_error hrun fun hallowed =>
      hrelation ((mem_relations_iff t relationId).mpr hallowed.2.1)
  obtain ⟨relation, hr⟩ := (Dict.mem_iff_lookup _ _).mp hrelation
  have hends := ends_relation t relationId relation hr
  -- The roles that are taken are those of the relation's ends.
  have hfree : (t.deployment.ends relationId serviceId = none ∧
      ∀ s' e', t.deployment.ends relationId s' = some e' → e'.role ≠ role) ↔
      ∀ sid x, relation.services.lookup sid = some x → sid ≠ serviceId ∧ x.role ≠ role := by
    constructor
    · intro hallowed sid x hx
      have hend : t.deployment.ends relationId sid = some ⟨x.name, x.role⟩ := by rw [hends, hx]; rfl
      refine ⟨fun hsid => ?_, hallowed.2 sid _ hend⟩
      rw [hsid, hallowed.1] at hend
      cases hend
    · intro hothers
      refine ⟨?_, fun sid e he => ?_⟩
      · cases hx : relation.services.lookup serviceId with
        | none => rw [hends, hx, Option.map_none]
        | some x => exact absurd rfl (hothers serviceId x hx).1
      · rw [hends] at he
        obtain ⟨x, hx, rfl⟩ := Option.map_eq_some_iff.mp he
        exact (hothers sid x hx).2
  cases hconflict :
    roleConflict relationId serviceId role (t.relationServices relationId).entries with
  | some e =>
    have hrun : runCall t (.assignServiceToRelation relationId serviceId name role) =
        .error e t := by
      simp only [runCall, assignServiceToRelation, assertService_bind, if_pos hservice,
        assertRelation_bind, if_pos hrelation, get_bind, hconflict]
      rfl
    refine refines_error hrun fun hallowed => ?_
    have hothers := hfree.mp hallowed.2.2
    have hnone : roleConflict relationId serviceId role (t.relationServices relationId).entries =
        none := by
      rw [roleConflict_eq_none]
      intro x hx
      simp only [InternalTopology.relationServices, hr] at hx
      exact hothers x.1 x.2 ((Dict.mem_entries_iff _ _).mp hx)
    rw [hconflict] at hnone
    cases hnone
  | none =>
    have hnone := (roleConflict_eq_none _ _ _ _).mp hconflict
    simp only [InternalTopology.relationServices, hr] at hnone
    have hothers (sid : String) (x : RelationService)
        (hx : relation.services.lookup sid = some x) :=
      hnone ⟨sid, x⟩ ((Dict.mem_entries_iff _ _).mpr hx)
    exact refines_ok
      (assignServiceToRelation_succeeds relationId serviceId name role relation hservice hr hothers)
      ⟨(mem_services_iff t serviceId).mp hservice, (mem_relations_iff t relationId).mp hrelation,
        hfree.mpr hothers⟩
      (setEnd_deployment t relationId serviceId relation _ (some ⟨name, role⟩) hr
        fun sid => Dict.lookup_insert relation.services serviceId sid _)

theorem unassignServiceFromRelation_refines (relationId serviceId : String) :
    Refines t (.unassignServiceFromRelation relationId serviceId) := by
  by_cases hservice : serviceId ∈ t.services
  swap
  · have hrun : runCall t (.unassignServiceFromRelation relationId serviceId) =
        .error (.serviceNotFound serviceId) t := by
      simp only [runCall, unassignServiceFromRelation, assertService_bind, if_neg hservice]
    exact refines_error hrun fun hallowed =>
      hservice ((mem_services_iff t serviceId).mpr hallowed.1)
  by_cases hrelation : relationId ∈ t.relations
  swap
  · have hrun : runCall t (.unassignServiceFromRelation relationId serviceId) =
        .error (.relationNotFound relationId) t := by
      simp only [runCall, unassignServiceFromRelation, assertService_bind, if_pos hservice,
        assertRelation_bind, if_neg hrelation]
    refine refines_error hrun fun hallowed => hrelation ?_
    obtain ⟨relation, hr, -⟩ := (ends_iff t relationId serviceId).mp hallowed.2
    exact (Dict.mem_iff_lookup _ _).mpr ⟨relation, hr⟩
  obtain ⟨relation, hr⟩ := (Dict.mem_iff_lookup _ _).mp hrelation
  by_cases hin : serviceId ∈ relation.services
  · have hassigned : ¬ serviceId ∉ t.relationServices relationId := by
      simpa only [InternalTopology.relationServices, hr, not_not] using hin
    have hrun : runCall t (.unassignServiceFromRelation relationId serviceId) = .ok () { t with
        relations := t.relations.insert relationId
          { relation with services := relation.services.erase serviceId } } := by
      simp only [runCall, unassignServiceFromRelation, assertService_bind, if_pos hservice,
        assertRelation_bind, if_pos hrelation, get_bind, raiseIf_bind, if_neg hassigned,
        modifyRelation_run _ _ _ _ hr]
    exact refines_ok hrun ⟨(mem_services_iff t serviceId).mp hservice,
        (ends_iff t relationId serviceId).mpr ⟨relation, hr, hin⟩⟩
      (setEnd_deployment t relationId serviceId relation _ none hr
        fun sid => Dict.lookup_erase relation.services serviceId sid)
  · have hassigned : serviceId ∉ t.relationServices relationId := by
      simpa only [InternalTopology.relationServices, hr] using hin
    have hrun : runCall t (.unassignServiceFromRelation relationId serviceId) =
        .error (.serviceNotAssigned serviceId relationId) t := by
      simp only [runCall, unassignServiceFromRelation, assertService_bind, if_pos hservice,
        assertRelation_bind, if_pos hrelation, get_bind, raiseIf_bind, if_pos hassigned]
    refine refines_error hrun fun hallowed => ?_
    obtain ⟨relation', hr', hin'⟩ := (ends_iff t relationId serviceId).mp hallowed.2
    rw [hr] at hr'
    obtain rfl := Option.some.inj hr'
    exact hin hin'

theorem call_refines (h : Integrity t) (c : TopologyCall) : Refines t c := by
  cases c with
  | addMachine machineId => exact addMachine_refines t machineId
  | removeMachine machineId => exact removeMachine_refines t h machineId
  | addService serviceId serviceName => exact addService_refines t h serviceId serviceName
  | removeService serviceId => exact removeService_refines t h serviceId
  | addServiceUnit serviceId unitId containerId =>
    exact addServiceUnit_refines t h serviceId unitId containerId
  | removeServiceUnit serviceId unitId => exact removeServiceUnit_refines t h serviceId unitId
  | assignServiceUnitToMachine serviceId unitId machineId =>
    exact assignServiceUnitToMachine_refines t h serviceId unitId machineId
  | unassignServiceUnitFromMachine serviceId unitId =>
    exact unassignServiceUnitFromMachine_refines t h serviceId unitId
  | addRelation relationId relationType relationScope =>
    exact addRelation_refines t relationId relationType relationScope
  | removeRelation relationId => exact removeRelation_refines t relationId
  | assignServiceToRelation relationId serviceId name role =>
    exact assignServiceToRelation_refines t relationId serviceId name role
  | unassignServiceFromRelation relationId serviceId =>
    exact unassignServiceFromRelation_refines t relationId serviceId

end calls

theorem freshTopology_deployment : freshTopology.deployment = emptyDeployment := by
  refine Deployment.ext ?_ rfl rfl rfl rfl rfl
  exact Set.eq_empty_of_forall_notMem fun m hm => AList.notMem_empty m hm

/-- The topology is a deployment: any calls leave in it what they are meant to make of an empty
deployment, and a call returns just when the deployment allows what it is meant to do. -/
theorem topology_refines_deployment (calls : List TopologyCall) :
    (calls.foldl call freshTopology).deployment =
        (calls.map TopologyCall.change).foldl (Deployment.change "container") emptyDeployment ∧
      ∀ c, runCall (calls.foldl call freshTopology) c =
          .ok () (call (calls.foldl call freshTopology) c) ↔
        ((calls.map TopologyCall.change).foldl (Deployment.change "container")
          emptyDeployment).Allowed "container" c.change := by
  have hrun (t : InternalTopology) (h : Integrity t) (d : Deployment String String)
      (hd : t.deployment = d) : (calls.foldl call t).deployment =
        (calls.map TopologyCall.change).foldl (Deployment.change "container") d := by
    induction calls generalizing t d with
    | nil => exact hd
    | cons c calls ih =>
      apply ih (call t c) (call_integrity h c)
      rw [(call_refines t h c).deployment, hd]
  have hdeployment := hrun freshTopology freshTopology_integrity emptyDeployment
    freshTopology_deployment
  refine ⟨hdeployment, fun c => ?_⟩
  rw [← hdeployment]
  exact (call_refines _ (calls_integrity freshTopology_integrity calls) c).returns

end Juju.State
