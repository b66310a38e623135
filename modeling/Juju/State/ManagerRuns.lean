import Juju.State.TopologyConflicts

namespace Juju.State
open Juju.Base

section changes

variable {t : InternalTopology}

theorem onTopology_ok {α : Type} {t' : InternalTopology} (m : TopologyM α) (a : α)
    (h : onTopology m t = .ok a t') : m t = .ok a t' := by
  simp only [onTopology, EStateM.adaptExcept] at h
  split at h
  · cases h
  · rename_i hm
    injection h with ha ht
    rw [hm, ha, ht]

theorem checkValidIn_bind {α : Type} (u : ServiceUnitState)
    (f : Unit → EStateM ManagerError InternalTopology α) :
    (u.checkValidIn >>= f) t =
      if t.serviceUnit? u.internalServiceId u.internalId = none then
        .error (.state .stateChanged) t
      else f () t := by
  simp [ServiceUnitState.checkValidIn, bind_assoc]

/-- A covered change with a new id ends with none but the documented errors. -/
theorem change_documented (h : Integrity t) (satisfies : String → Except NodeError Bool)
    (change : TopologyChange) (hnew : ∀ k ∈ change.creates, Unnamed k.1 k.2 t)
    (hcovered : change.Covered satisfies t) : EndsDocumented (change.run satisfies t) := by
  have hchanged (t' : InternalTopology) :
      EndsDocumented (.error (.state .stateChanged) t' : EStateM.Result _ _ Unit) :=
    endsDocumented_error _ _ (by simp [ManagerError.Documented])
  cases change with
  | addService id name =>
    simp only [TopologyChange.run, get_bind, raiseIf_bind]
    split
    · exact endsDocumented_error _ _ (by simp [ManagerError.Documented])
    · rename_i hname
      obtain ⟨t', hrun⟩ := addService_succeeds id name (hnew (.service, id) rfl)
        (by simpa using hname)
      exact endsDocumented_succeeds _ ⟨(), t', hrun⟩
  | removeService id =>
    simp only [TopologyChange.run, get_bind, raiseIf_bind]
    split
    · exact hchanged t
    · rename_i hin
      obtain ⟨t', hrun⟩ := removeService_succeeds id (by simpa [InternalTopology.hasService] using hin)
        hcovered
      exact endsDocumented_succeeds _ ⟨(), t', hrun⟩
  | addUnit sid uid container =>
    simp only [TopologyChange.run, get_bind, raiseIf_bind]
    split
    · exact hchanged t
    · rename_i hnot
      have hin : sid ∈ t.services := by simpa [InternalTopology.hasService] using hnot
      obtain ⟨n, t', hrun⟩ := addServiceUnit_succeeds h sid uid container hin
        (hnew (.unit, uid) rfl) (hcovered hin)
      rw [bind_of_ok _ _ _ _ _ (onTopology_succeeds _ _ _ hrun)]
      exact endsDocumented_ok _ _
  | removeUnit sid uid =>
    simp only [TopologyChange.run, get_bind, raiseIf_bind]
    split
    · exact hchanged t
    · rename_i hin
      obtain ⟨t', hrun⟩ := removeServiceUnit_succeeds sid uid hin
      exact endsDocumented_succeeds _ ⟨(), t', hrun⟩
  | addMachine id =>
    obtain ⟨t', hrun⟩ := addMachine_succeeds id (hnew (.machine, id) rfl)
    exact endsDocumented_succeeds _ ⟨(), t', hrun⟩
  | removeMachine id =>
    simp only [TopologyChange.run, get_bind]
    split
    · rename_i hhas
      have hin : id ∈ t.machines := by simpa [InternalTopology.hasMachine] using hhas
      obtain ⟨hasUnits, hunits⟩ := machineHasUnits_succeeds id hin
      rw [bind_of_ok _ _ _ _ _ (onTopology_succeeds _ _ _ hunits), raiseIf_bind]
      split
      · exact endsDocumented_error _ _ (by simp [ManagerError.Documented])
      · rename_i hfree
        rw [Bool.not_eq_true] at hfree
        obtain ⟨t', hrun⟩ := removeMachine_succeeds id hin (hfree ▸ hunits)
        exact endsDocumented_succeeds _ ⟨(), t', hrun⟩
    · exact endsDocumented_ok _ _
  | assignUnit u m =>
    simp only [TopologyChange.run]
    rw [checkValidIn_bind]
    split
    · exact hchanged t
    · rename_i hvalid
      obtain ⟨unit, hunit⟩ := Option.ne_none_iff_exists'.mp hvalid
      obtain ⟨hcontainer, hmachine⟩ := hcovered unit hunit
      obtain ⟨container, hfound, hnone⟩ :=
        getServiceUnitContainer_succeeds h _ _ unit hunit hcontainer
      rw [get_bind, bind_of_ok _ _ _ _ _ (onTopology_succeeds _ _ _ hfound), raiseIf_bind]
      split
      · exact endsDocumented_error _ _ (by simp [ManagerError.Documented])
      · rename_i hprincipal
        have hfree : unit.container = none := hnone.mp (by simpa using hprincipal)
        cases hassigned : t.unitMachine u.internalServiceId u.internalId with
        | none =>
          have hm : m ∈ t.machines := hmachine hfree
            (by simpa [InternalTopology.unitMachine, hunit] using hassigned)
          obtain ⟨t', hrun⟩ := assignServiceUnitToMachine_succeeds _ _ m hvalid hm hassigned
          exact endsDocumented_succeeds _ ⟨(), t', hrun⟩
        | some assigned =>
          simp only [raiseIf]
          split
          · exact endsDocumented_error _ _ (by simp [ManagerError.Documented])
          · exact endsDocumented_ok _ _
  | assignUnusedUnit u =>
    simp only [TopologyChange.run]
    rw [checkValidIn_bind]
    split
    · exact hchanged t
    · rename_i hvalid
      rw [get_bind]
      rcases unusedMachine_cases satisfies t.getMachines (t := t)
          (fun m hm => (mem_getMachines m).mp hm) with ⟨m, hm, hfound⟩ | ⟨e, he, herror⟩
      · rw [bind_of_ok _ _ _ _ _ hfound]
        obtain ⟨t', hrun⟩ := assignServiceUnitToMachine_succeeds _ _ m hvalid hm
          (hcovered m t hfound)
        exact endsDocumented_succeeds _ ⟨(), t', hrun⟩
      · rw [bind_run, herror]
        exact endsDocumented_error _ _ he
  | unassignUnit u =>
    simp only [TopologyChange.run]
    rw [checkValidIn_bind]
    split
    · exact hchanged t
    · rename_i hvalid
      rw [get_bind]
      split
      · rename_i hassigned
        obtain ⟨t', hrun⟩ := unassignServiceUnitFromMachine_succeeds _ _ hvalid hassigned
        exact endsDocumented_succeeds _ ⟨(), t', hrun⟩
      · exact endsDocumented_ok _ _
  | addRelation add rid =>
    exact addRelationChange_documented add rid (hnew (.relation, rid) rfl) hcovered
  | removeRelation rid =>
    simp only [TopologyChange.run, onRelation, EStateM.adaptExcept, removeRelationChange, get_bind,
      raiseIf_bind]
    by_cases hin : t.hasRelation rid
    · obtain ⟨t', hrun⟩ := removeRelation_succeeds rid
        (by simpa [InternalTopology.hasRelation] using hin)
      simp only [hin, not_true_eq_false, if_false, liftTopology, hrun]
      exact endsDocumented_ok _ _
    · simp only [hin]
      exact hchanged t

end changes

section keeps

variable (P : InternalTopology → Prop)

theorem onTopology_keeps {α : Type} (m : TopologyM α) (h : Keeps P m) : Keeps P (onTopology m) :=
  keeps_adaptExcept P _ m h

theorem liftTopology_keeps {α : Type} (m : TopologyM α) (h : Keeps P m) :
    Keeps P (liftTopology m) := by
  intro t ht
  have hm := h t ht
  unfold liftTopology
  cases hrun : m t with
  | ok a t' => rwa [hrun] at hm
  | error e t' => rwa [hrun] at hm

theorem machineHasUnits_keeps (id : String) : Keeps P (machineHasUnits id) := by
  intro t ht
  simp only [machineHasUnits, assertMachine_bind, get_bind, pure_run]
  split <;> exact ht

theorem assertServiceUnit_keeps (sid uid : String) : Keeps P (assertServiceUnit sid uid) := by
  intro t ht
  have hrun := assertServiceUnit_bind sid uid (fun _ => pure ()) t
  rw [bind_pure] at hrun
  rw [hrun]
  split
  · split <;> exact ht
  · exact ht

theorem getServiceUnitContainer_keeps (uid : String) : Keeps P (getServiceUnitContainer uid) := by
  have hprincipal : Keeps P (getServiceUnitPrincipal uid) := by
    refine keeps_bind P _ _ (keeps_get P) fun t => ?_
    split
    · exact keeps_pure P _
    · exact keeps_throw P _
  refine keeps_bind P _ _ hprincipal fun container => ?_
  split
  · exact keeps_pure P _
  · rename_i c
    have hservice : Keeps P (getServiceUnitService c) := by
      refine keeps_bind P _ _ (keeps_get P) fun t => ?_
      split
      · exact keeps_pure P _
      · exact keeps_throw P _
    refine keeps_bind P _ _ hservice fun sid => ?_
    refine keeps_bind P _ _ (assertServiceUnit_keeps P sid c) fun _ => ?_
    refine keeps_bind P _ _ (keeps_get P) fun t => ?_
    split
    · exact keeps_pure P _
    · exact keeps_throw P _

theorem checkValidIn_keeps (u : ServiceUnitState) : Keeps P u.checkValidIn :=
  keeps_bind P _ _ (keeps_get P) fun _ =>
    keeps_bind P _ _ (keeps_raiseIf P _ _) fun _ => keeps_pure P _

theorem unusedMachine_keeps (satisfies : String → Except NodeError Bool) (machines : List String) :
    Keeps P (unusedMachine satisfies machines) := by
  induction machines with
  | nil => exact keeps_throw P _
  | cons m machines ih =>
    unfold unusedMachine
    refine keeps_ite P _ _ _ (fun _ => ih) fun _ => ?_
    refine keeps_bind P _ _ (onTopology_keeps P _ (machineHasUnits_keeps P m)) fun hasUnits => ?_
    refine keeps_ite P _ _ _ (fun _ => ih) fun _ => ?_
    split
    · exact keeps_throw P _
    · exact keeps_pure P _
    · exact ih

/-- The operations that a change is made of. -/
def TopologyChange.MadeOf : TopologyChange → TopologyCall → Prop
  | .addService id name, c => c = .addService id name
  | .removeService id, c => c = .removeService id
  | .addUnit sid uid container, c => c = .addServiceUnit sid uid container
  | .removeUnit sid uid, c => c = .removeServiceUnit sid uid
  | .addMachine id, c => c = .addMachine id
  | .removeMachine id, c => c = .removeMachine id
  | .assignUnit u m, c => c = .assignServiceUnitToMachine u.internalServiceId u.internalId m
  | .assignUnusedUnit u, c =>
    ∃ m, c = .assignServiceUnitToMachine u.internalServiceId u.internalId m
  | .unassignUnit u, c => c = .unassignServiceUnitFromMachine u.internalServiceId u.internalId
  | .addRelation add rid, c => c = .addRelation rid add.relationType add.scope ∨
      ∃ sid name role, c = .assignServiceToRelation rid sid name role
  | .removeRelation rid, c => c = .removeRelation rid

theorem madeOf_creates (change : TopologyChange) (c : TopologyCall) (hc : change.MadeOf c)
    (k : NodeKind × String) (hk : c.creates = some k) : change.creates = some k := by
  cases change with
  | assignUnusedUnit u =>
    obtain ⟨m, rfl⟩ := hc
    cases hk
  | addRelation add rid =>
    rcases hc with rfl | ⟨sid, name, role, rfl⟩
    · exact hk
    · cases hk
  | _ =>
    subst hc
    exact hk

/-- What the operations that a change is made of keep, the change keeps. -/
theorem change_keeps (satisfies : String → Except NodeError Bool) (change : TopologyChange)
    (h : ∀ c, change.MadeOf c → ∀ t, P t → P (call t c)) : Keeps P (change.run satisfies) := by
  cases change with
  | addService id name =>
    refine keeps_bind P _ _ (keeps_get P) fun t => ?_
    refine keeps_bind P _ _ (keeps_raiseIf P _ _) fun _ => ?_
    exact onTopology_keeps P _ (h (.addService id name) rfl)
  | removeService id =>
    refine keeps_bind P _ _ (keeps_get P) fun t => ?_
    refine keeps_bind P _ _ (keeps_raiseIf P _ _) fun _ => ?_
    exact onTopology_keeps P _ (h (.removeService id) rfl)
  | addUnit sid uid container =>
    refine keeps_bind P _ _ (keeps_get P) fun t => ?_
    refine keeps_bind P _ _ (keeps_raiseIf P _ _) fun _ => ?_
    refine keeps_bind P _ _ ?_ fun _ => keeps_pure P _
    exact onTopology_keeps P _ (h (.addServiceUnit sid uid container) rfl)
  | removeUnit sid uid =>
    refine keeps_bind P _ _ (keeps_get P) fun t => ?_
    refine keeps_bind P _ _ (keeps_raiseIf P _ _) fun _ => ?_
    exact onTopology_keeps P _ (h (.removeServiceUnit sid uid) rfl)
  | addMachine id => exact onTopology_keeps P _ (h (.addMachine id) rfl)
  | removeMachine id =>
    refine keeps_bind P _ _ (keeps_get P) fun t => ?_
    refine keeps_ite P _ _ _ (fun _ => ?_) fun _ => keeps_pure P _
    refine keeps_bind P _ _ (onTopology_keeps P _ (machineHasUnits_keeps P id)) fun _ => ?_
    refine keeps_bind P _ _ (keeps_raiseIf P _ _) fun _ => ?_
    exact onTopology_keeps P _ (h (.removeMachine id) rfl)
  | assignUnit u m =>
    refine keeps_bind P _ _ (checkValidIn_keeps P u) fun _ => ?_
    refine keeps_bind P _ _ (keeps_get P) fun t => ?_
    refine keeps_bind P _ _ (onTopology_keeps P _ (getServiceUnitContainer_keeps P _)) fun _ => ?_
    refine keeps_bind P _ _ (keeps_raiseIf P _ _) fun _ => ?_
    split
    · exact onTopology_keeps P _ (h (.assignServiceUnitToMachine _ _ m) rfl)
    · exact keeps_raiseIf P _ _
  | assignUnusedUnit u =>
    refine keeps_bind P _ _ (checkValidIn_keeps P u) fun _ => ?_
    refine keeps_bind P _ _ (keeps_get P) fun t => ?_
    refine keeps_bind P _ _ (unusedMachine_keeps P satisfies _) fun m => ?_
    exact onTopology_keeps P _ (h (.assignServiceUnitToMachine _ _ m) ⟨m, rfl⟩)
  | unassignUnit u =>
    refine keeps_bind P _ _ (checkValidIn_keeps P u) fun _ => ?_
    refine keeps_bind P _ _ (keeps_get P) fun t => ?_
    refine keeps_ite P _ _ _ (fun _ => ?_) fun _ => keeps_pure P _
    exact onTopology_keeps P _ (h (.unassignServiceUnitFromMachine _ _) rfl)
  | addRelation add rid =>
    have hassign (lastId : Option String) (services : List (Option String × RelationEndpoint)) :
        Keeps P (assignEndpoints rid lastId services) := by
      induction services with
      | nil => exact keeps_pure P _
      | cons p services ih =>
        refine keeps_bind P _ _ (keeps_get P) fun t => ?_
        refine keeps_bind P _ _ (keeps_raiseIf P _ _) fun _ => ?_
        refine keeps_bind P _ _ ?_ fun _ => ih
        unfold assignEndpoint
        split
        · exact keeps_throw P _
        · exact liftTopology_keeps P _
            (h (.assignServiceToRelation rid _ _ _) (Or.inr ⟨_, _, _, rfl⟩))
    refine keeps_adaptExcept P _ _ ?_
    refine keeps_bind P _ _ (keeps_get P) fun t => ?_
    refine keeps_bind P _ _ (keeps_raiseIf P _ _) fun _ => ?_
    refine keeps_bind P _ _ ?_ fun _ => hassign _ _
    exact liftTopology_keeps P _ (h (.addRelation rid _ _) (Or.inl rfl))
  | removeRelation rid =>
    refine keeps_adaptExcept P _ _ ?_
    refine keeps_bind P _ _ (keeps_get P) fun t => ?_
    refine keeps_bind P _ _ (keeps_raiseIf P _ _) fun _ => ?_
    exact liftTopology_keeps P _ (h (.removeRelation rid) rfl)

theorem change_integrity (satisfies : String → Except NodeError Bool) (change : TopologyChange) :
    Keeps Integrity (change.run satisfies) :=
  change_keeps Integrity satisfies change fun c _ _ ht => call_integrity ht c

theorem change_unnamed (satisfies : String → Except NodeError Bool) (change : TopologyChange)
    (kind : NodeKind) (id : String) (hother : change.creates ≠ some (kind, id)) :
    Keeps (Unnamed kind id) (change.run satisfies) :=
  change_keeps _ satisfies change fun c hc t ht =>
    call_unnamed kind id c t (fun heq => hother (madeOf_creates change c hc _ heq)) ht

end keeps

section reads

variable {t : InternalTopology}

/-- The service whose relations are listed is there. -/
def TopologyRead.Covered (t : InternalTopology) : TopologyRead → Prop
  | .relationsForService service => service.internalId ∈ t.services
  | _ => True

theorem mapM_except_ok {α β ε : Type} (f : α → Except ε β) (l : List α)
    (h : ∀ a ∈ l, ∃ b, f a = .ok b) : ∃ bs, l.mapM f = .ok bs := by
  induction l with
  | nil => exact ⟨[], rfl⟩
  | cons a l ih =>
    obtain ⟨b, hb⟩ := h a List.mem_cons_self
    obtain ⟨bs, hbs⟩ := ih fun x hx => h x (List.mem_cons_of_mem _ hx)
    exact ⟨b :: bs, by rw [List.mapM_cons, hb, hbs]; rfl⟩

theorem checkEndpoints_error (endpoints : List RelationEndpoint) (e : StateError)
    (h : checkEndpoints endpoints = .error e) : ∀ e', e ≠ .topology e' := by
  unfold checkEndpoints at h
  split at h
  · cases h
  · split at h
    · cases h
      simp
    · split at h
      · cases h
        simp
      · cases h
  · cases h
    simp

theorem read_documented (h : Integrity t) (r : TopologyRead) (hcovered : r.Covered t)
    (e : ManagerError) (hrun : r.run t = .error e) : e.Documented := by
  cases r with
  | relationsForService service =>
    have hin : service.internalId ∈ t.services := hcovered
    have hlist : getRelationsForService service.internalId t =
        .ok (t.relationsForService service.internalId) t := by
      rw [getRelationsForService, assertService_bind, if_pos hin]
      rfl
    rw [TopologyRead.run, hlist] at hrun
    cases hrun
  | unitNames service =>
    simp only [TopologyRead.run] at hrun
    split at hrun
    · cases hrun
      simp [ManagerError.Documented]
    · rename_i info hs
      have hnamed : ∀ x ∈ info.units.entries, ∃ name, unitNameParts info x.2 = .ok name := by
        intro x hx
        have hunit := (serviceUnit?_lookup t service.internalId x.1 info hs).trans
          ((Dict.mem_entries_iff _ _).mp hx)
        obtain ⟨n, -, hn, -⟩ := h.sequenceBelow _ _ _ _ hs hunit
        exact ⟨(info.name, n), by rw [unitNameParts, hn]⟩
      obtain ⟨names, hnames⟩ := mapM_except_ok _ _ hnamed
      rw [hnames] at hrun
      cases hrun
  | unitState service serviceName sequence =>
    simp only [TopologyRead.run] at hrun
    split at hrun
    · cases hrun
      simp [ManagerError.Documented]
    · split at hrun
      · cases hrun
        simp [ManagerError.Documented]
      · rename_i hin
        rw [not_not] at hin
        obtain ⟨info, hs⟩ := (Dict.mem_iff_lookup _ _).mp hin
        split at hrun
        · rename_i hfind
          simp [findServiceUnitWithSequence, hin, hs] at hfind
        · cases hrun
          simp [ManagerError.Documented]
        · cases hrun
  | endpoints es =>
    simp only [TopologyRead.run, startAdd] at hrun
    cases hcheck : checkEndpoints es with
    | error e' =>
      rw [hcheck] at hrun
      cases hrun
      have hne := checkEndpoints_error es e' hcheck
      simpa [ManagerError.Documented] using hne
    | ok _ =>
      rw [hcheck] at hrun
      simp only at hrun
      split at hrun
      · cases hrun
        rename_i herror
        split at herror
        · cases herror
          simp [ManagerError.Documented]
        · cases herror
      · cases hrun

/-- The id that a part of a call is about to bring in. -/
def CallPart.creates : CallPart → Option (NodeKind × String)
  | .change c => c.creates
  | _ => none

/-- The parts that follow a read bring nothing in by themselves. -/
theorem read_creates (r : TopologyRead) (parts : List CallPart) (h : r.run t = .ok parts) :
    parts.filterMap CallPart.creates = [] := by
  rw [List.filterMap_eq_nil_iff]
  intro part hpart
  cases r with
  | relationsForService service =>
    simp only [TopologyRead.run] at h
    split at h
    · cases h
    · cases h
      obtain ⟨r, -, rfl⟩ := List.mem_map.mp hpart
      rfl
  | unitNames service =>
    simp only [TopologyRead.run] at h
    split at h
    · cases h
    · rename_i info _
      cases hnames : info.units.entries.mapM fun e => unitNameParts info e.2 with
      | error e =>
        rw [hnames] at h
        cases h
      | ok names =>
        rw [hnames] at h
        cases h
        obtain ⟨name, -, rfl⟩ := List.mem_map.mp hpart
        rfl
  | unitState service serviceName sequence =>
    simp only [TopologyRead.run] at h
    split at h
    · cases h
    · split at h
      · cases h
      · split at h
        · cases h
        · cases h
        · cases h
          simp only [removeUnitParts, List.mem_cons, List.not_mem_nil, or_false] at hpart
          rcases hpart with rfl | rfl <;> rfl
  | endpoints es =>
    simp only [TopologyRead.run] at h
    split at h
    · cases h
    · cases h
      rw [List.mem_singleton.mp hpart]
      rfl

theorem creation_creates (creation : Creation) (id : String) :
    (creation.next id).filterMap CallPart.creates = [(creation.kind, id)] := by
  cases creation with
  | service serviceName => rfl
  | unit service container => cases container <;> rfl
  | machine => rfl
  | relation add => rfl

theorem parts_creates (call : ManagerCall) (parts : List CallPart) (h : call.parts = .ok parts) :
    parts.filterMap CallPart.creates = [] := by
  cases call with
  | addMachineState complete =>
    simp only [ManagerCall.parts] at h
    split at h
    · cases h
      rfl
    · cases h
  | addRelationState endpoints =>
    simp only [ManagerCall.parts] at h
    split at h
    · cases h
    · cases h
      rfl
  | _ =>
    cases h
    rfl

end reads

end Juju.State
