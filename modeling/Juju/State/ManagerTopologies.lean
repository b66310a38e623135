import Juju.State.MachineUnits
import Juju.State.RelationUniqueness
import Juju.State.StateErrors

namespace Juju.State
open Juju.Base

/-- Neither a unit nor the container of one has the id. -/
def Apart (id : String) (t : InternalTopology) : Prop :=
  Unnamed .unit id t ∧
    ∀ sid uid unit, t.serviceUnit? sid uid = some unit → unit.container ≠ some id

/-- A unit is ranked above its container, so that no chain of containers closes. -/
def Ranked (t : InternalTopology) : Prop :=
  ∃ rank : String → Nat, ∀ sid uid unit c, t.serviceUnit? sid uid = some unit →
    unit.container = some c → rank c < rank uid

/-- A relation has two services at most. -/
def Paired (t : InternalTopology) : Prop :=
  ∀ rid relation, t.relations.lookup rid = some relation → relation.services.keys.length ≤ 2

/-- What holds of a topology that only managers have changed. -/
structure ManagerMade (t : InternalTopology) : Prop where
  integrity : Integrity t
  ranked : Ranked t
  paired : Paired t
  sequenced : ∀ m ∈ t.machines, ∃ n, m = internalMachineId n

section calls

variable {t : InternalTopology} (h : Integrity t)
include h

/-- A container is there when it is named, so that an id that stands for nothing stays apart. -/
theorem call_apart (c : TopologyCall) (id : String) (hnew : c.creates ≠ some (.unit, id))
    (hapart : Apart id t) : Apart id (call t c) := by
  refine ⟨call_unnamed .unit id c t hnew hapart.1, fun sid uid unit hunit => ?_⟩
  cases call_units t h c with
  | kept _ hgone hkept =>
    have hstays : ¬ Removes t c sid uid := fun hremoves => by
      rw [hgone sid uid hremoves] at hunit
      cases hunit
    rw [hkept sid uid hstays] at hunit
    exact hapart.2 sid uid unit hunit
  | added serviceId unitId container n hfree hin hafter =>
    rw [hafter] at hunit
    split at hunit
    · obtain rfl := Option.some.inj hunit
      exact fun hc => hapart.1 (hin id hc)
    · exact hapart.2 sid uid unit hunit
  | machineSet _ serviceId unitId unit₀ machine hunit₀ hremoves hafter =>
    rw [hafter] at hunit
    split at hunit
    · obtain rfl := Option.some.inj hunit
      exact hapart.2 serviceId unitId unit₀ hunit₀
    · exact hapart.2 sid uid unit hunit

/-- A unit that comes in is ranked above its container, which nothing contained in it is. -/
theorem call_ranked (c : TopologyCall)
    (hnew : ∀ id, c.creates = some (.unit, id) → Apart id t) (hranked : Ranked t) :
    Ranked (call t c) := by
  obtain ⟨rank, hrank⟩ := hranked
  cases call_units t h c with
  | kept _ hgone hkept =>
    refine ⟨rank, fun sid uid unit p hunit hp => ?_⟩
    have hstays : ¬ Removes t c sid uid := fun hremoves => by
      rw [hgone sid uid hremoves] at hunit
      cases hunit
    rw [hkept sid uid hstays] at hunit
    exact hrank sid uid unit p hunit hp
  | added serviceId unitId container n hfree hin hafter =>
    have hapart := hnew unitId rfl
    refine ⟨Function.update rank unitId ((container.map rank).getD 0 + 1),
      fun sid uid unit p hunit hp => ?_⟩
    have hother : ∀ sid unit, t.serviceUnit? sid uid = some unit → uid ≠ unitId := by
      intro sid unit hold hsame
      rw [hsame, hfree sid] at hold
      cases hold
    rw [hafter] at hunit
    split at hunit
    · rename_i hsame
      obtain rfl := Option.some.inj hunit
      obtain rfl : container = some p := hp
      have hne : p ≠ unitId := fun heq => hapart.1 (heq ▸ hin p rfl)
      rw [hsame.2, Function.update_self, Function.update_of_ne hne]
      exact Nat.lt_succ_self _
    · have hne : p ≠ unitId := fun heq => hapart.2 sid uid unit hunit (heq ▸ hp)
      rw [Function.update_of_ne hne, Function.update_of_ne (hother sid unit hunit)]
      exact hrank sid uid unit p hunit hp
  | machineSet _ serviceId unitId unit₀ machine hunit₀ hremoves hafter =>
    refine ⟨rank, fun sid uid unit p hunit hp => ?_⟩
    rw [hafter] at hunit
    split at hunit
    · rename_i hsame
      obtain rfl := Option.some.inj hunit
      exact hsame.2 ▸ hrank serviceId unitId unit₀ p hunit₀ hp
    · exact hrank sid uid unit p hunit hp

end calls

section changes

variable (satisfies : String → Except NodeError Bool) (change : TopologyChange)

theorem change_apart (id : String) (hother : change.creates ≠ some (.unit, id)) :
    Keeps (fun t => Integrity t ∧ Apart id t) (change.run satisfies) :=
  change_keeps _ satisfies change fun c hc _ ht =>
    ⟨call_integrity ht.1 c,
      call_apart ht.1 c id (fun heq => hother (madeOf_creates change c hc _ heq)) ht.2⟩

theorem addUnit_ok (sid uid : String) (container : Option String) (t t' : InternalTopology)
    (hrun : (TopologyChange.addUnit sid uid container).run satisfies t = .ok () t') :
    t' = call t (.addServiceUnit sid uid container) := by
  simp only [TopologyChange.run, get_bind, raiseIf_bind] at hrun
  split at hrun
  · cases hrun
  · obtain ⟨n, s, hadd, hdone⟩ := bind_ok _ _ _ _ _ hrun
    cases hdone
    rw [call, onTopology_ok _ _ hadd, leaves_ok]

theorem change_ranked (t t' : InternalTopology) (h : Integrity t) (hranked : Ranked t)
    (hnew : ∀ id, change.creates = some (.unit, id) → Apart id t)
    (hrun : change.run satisfies t = .ok () t') : Ranked t' := by
  by_cases hadds : ∃ id, change.creates = some (.unit, id)
  · obtain ⟨id, hid⟩ := hadds
    cases change with
    | addUnit sid uid container =>
      rw [addUnit_ok satisfies sid uid container t t' hrun]
      exact call_ranked h _ (fun id heq => hnew id heq) hranked
    | _ => cases hid
  · have hkeeps := change_keeps (fun t => Integrity t ∧ Ranked t) satisfies change
      (fun c hc t ht => ⟨call_integrity ht.1 c, call_ranked ht.1 c
        (fun id heq => absurd ⟨id, madeOf_creates change c hc _ heq⟩ hadds) ht.2⟩) t ⟨h, hranked⟩
    rw [hrun] at hkeeps
    exact hkeeps.2

end changes

section relations

/-- An operation on machines, services or units leaves the relations. -/
theorem call_relations (t : InternalTopology) (c : TopologyCall)
    (hadd : ∀ rid type scope, c ≠ .addRelation rid type scope)
    (hremove : ∀ rid, c ≠ .removeRelation rid)
    (hassign : ∀ rid sid name role, c ≠ .assignServiceToRelation rid sid name role)
    (hunassign : ∀ rid sid, c ≠ .unassignServiceFromRelation rid sid) :
    (call t c).relations = t.relations := by
  have heffect := call_effect t c
  generalize call t c = t' at heffect
  cases heffect with
  | relationAdded rid type scope => exact absurd rfl (hadd rid type scope)
  | relationRemoved rid => exact absurd rfl (hremove rid)
  | serviceAssigned rid sid name role => exact absurd rfl (hassign rid sid name role)
  | serviceUnassigned rid sid => exact absurd rfl (hunassign rid sid)
  | _ => rfl

theorem removeRelation_paired (rid : String) (t : InternalTopology) (h : Paired t) :
    Paired (call t (.removeRelation rid)) := by
  simp only [call, removeRelation, assertRelation_bind, modify_run]
  split
  · intro rid' relation hr
    rw [leaves_ok, Dict.lookup_erase] at hr
    split at hr
    · cases hr
    · exact h rid' relation hr
  · exact h

/-- The services of a new relation are those found for its endpoints. -/
theorem addRelation_paired (add : AddRelation) (rid : String) (t t' : InternalTopology)
    (h : Paired t) (hpair : add.serviceIds.length ≤ 2)
    (hrun : addRelationChange add rid t = .ok () t') : Paired t' := by
  simp only [addRelationChange, get_bind, raiseIf_bind] at hrun
  split at hrun
  · cases hrun
  · obtain ⟨_, s, hadd, hassign⟩ := bind_ok _ _ _ _ _ hrun
    obtain ⟨-, rfl⟩ := addRelation_ok _ _ _ _ _ (liftTopology_ok _ _ _ _ hadd)
    obtain ⟨-, entered, hlookup, hentered⟩ := assignEndpoints_ok _ _ _ _ _
      ⟨add.relationType, add.scope, ∅⟩ (by rw [Dict.lookup_insert, if_pos rfl]) hassign
    intro rid' relation hr
    rw [hlookup rid', Dict.lookup_insert] at hr
    split at hr
    · obtain rfl := Option.some.inj hr
      have hkeys : entered.keys ⊆ add.serviceIds.filterMap id := by
        intro sid hsid
        obtain ⟨x, hx⟩ := (Dict.mem_iff_lookup _ _).mp (AList.mem_keys.mp hsid)
        rcases hentered sid x hx with hold | ⟨p, hp, hid, -⟩
        · cases hold
        · exact List.mem_filterMap.mpr ⟨p.1, (List.of_mem_zip hp).1, hid⟩
      have hle := (List.subperm_of_subset entered.nodupKeys hkeys).length_le
      exact hle.trans ((List.length_filterMap_le _ _).trans hpair)
    · exact h rid' relation hr

/-- The endpoints of a relation to add are one or two. -/
def TopologyChange.FewEndpoints : TopologyChange → Prop
  | .addRelation add _ => add.serviceIds.length ≤ 2
  | _ => True

theorem change_paired (satisfies : String → Except NodeError Bool) (change : TopologyChange)
    (t t' : InternalTopology) (h : Paired t) (hfew : change.FewEndpoints)
    (hrun : change.run satisfies t = .ok () t') : Paired t' := by
  have hsame (hmade : ∀ c, change.MadeOf c → ∀ t, (call t c).relations = t.relations) :
      Paired t' := by
    have hkeeps := change_keeps Paired satisfies change
      (fun c hc t ht rid relation hr => ht rid relation (hmade c hc t ▸ hr)) t h
    rwa [hrun] at hkeeps
  cases change with
  | addRelation add rid =>
    simp only [TopologyChange.run, onRelation, EStateM.adaptExcept] at hrun
    cases hadd : addRelationChange add rid t with
    | ok a s =>
      rw [hadd] at hrun
      cases hrun
      exact addRelation_paired add rid t t' h hfew hadd
    | error e s =>
      rw [hadd] at hrun
      cases hrun
  | removeRelation rid =>
    have hkeeps := change_keeps Paired satisfies (.removeRelation rid)
      (fun c hc t ht => by
        subst hc
        exact removeRelation_paired rid t ht) t h
    rwa [hrun] at hkeeps
  | assignUnusedUnit u =>
    apply hsame
    rintro c ⟨m, rfl⟩ t
    exact call_relations t _ (by simp) (by simp) (by simp) (by simp)
  | _ =>
    apply hsame
    rintro c rfl t
    exact call_relations t _ (by simp) (by simp) (by simp) (by simp)

end relations

section parts

def CallPart.FewEndpoints : CallPart → Prop
  | .create (.relation add) => add.serviceIds.length ≤ 2
  | .change c => c.FewEndpoints
  | _ => True

theorem creation_few (creation : Creation) (id : String)
    (h : (CallPart.create creation).FewEndpoints) :
    ∀ part ∈ creation.next id, part.FewEndpoints := by
  cases creation with
  | unit service container =>
    cases container <;> simp [Creation.next, CallPart.FewEndpoints, TopologyChange.FewEndpoints]
  | relation add =>
    simpa [Creation.next, CallPart.FewEndpoints, TopologyChange.FewEndpoints] using h
  | _ => simp [Creation.next, CallPart.FewEndpoints, TopologyChange.FewEndpoints]

theorem removeUnit_few (service : ServiceState) (unit : ServiceUnitState) :
    ∀ part ∈ removeUnitParts service unit, part.FewEndpoints := by
  simp [removeUnitParts, CallPart.FewEndpoints, TopologyChange.FewEndpoints]

/-- The endpoints are counted when the call starts. -/
theorem read_few (t : InternalTopology) (r : TopologyRead) (parts : List CallPart)
    (hrun : r.run t = .ok parts) : ∀ part ∈ parts, part.FewEndpoints := by
  cases r with
  | relationsForService service =>
    simp only [TopologyRead.run] at hrun
    split at hrun
    · cases hrun
    · cases hrun
      simp [CallPart.FewEndpoints, TopologyChange.FewEndpoints]
  | unitNames service =>
    simp only [TopologyRead.run] at hrun
    split at hrun
    · cases hrun
    · obtain ⟨names, -, hparts⟩ := except_bind_ok _ _ _ hrun
      cases hparts
      intro part hpart
      obtain ⟨name, -, rfl⟩ := List.mem_map.mp hpart
      trivial
  | unitState service serviceName sequence =>
    simp only [TopologyRead.run] at hrun
    split at hrun
    · cases hrun
    · split at hrun
      · cases hrun
      · split at hrun
        · cases hrun
        · cases hrun
        · cases hrun
          exact removeUnit_few service _
  | endpoints es =>
    simp only [TopologyRead.run, startAdd] at hrun
    have hcount : checkEndpoints es = .ok () → es.length ≤ 2 := by
      intro h
      unfold checkEndpoints at h
      split at h
      · simp
      · simp
      · cases h
    cases hcheck : checkEndpoints es with
    | error e =>
      rw [hcheck] at hrun
      cases hrun
    | ok _ =>
      rw [hcheck] at hrun
      simp only at hrun
      by_cases hhas : t.hasRelationBetweenEndpoints es
      · rw [if_pos hhas] at hrun
        cases hrun
      · rw [if_neg hhas] at hrun
        cases hrun
        simpa [CallPart.FewEndpoints, prepareAdd] using hcount hcheck

theorem parts_few (call : ManagerCall) (parts : List CallPart) (h : call.parts = .ok parts) :
    ∀ part ∈ parts, part.FewEndpoints := by
  cases call with
  | addMachineState complete =>
    simp only [ManagerCall.parts] at h
    split at h
    · cases h
      simp [CallPart.FewEndpoints]
    · cases h
  | addRelationState endpoints =>
    simp only [ManagerCall.parts] at h
    split at h
    · cases h
    · cases h
      simp [CallPart.FewEndpoints]
  | removeUnitState service unit =>
    cases h
    exact removeUnit_few service unit
  | _ =>
    cases h
    simp [CallPart.FewEndpoints, TopologyChange.FewEndpoints]

end parts

section runs

variable {C : Type} [DecidableEq C]

/-- ZooKeeper gives the node of a machine its number. -/
def SequencedNodes (s : StateManagers C) : ManagerEvent C → Prop
  | .reply c (.created id) => ∀ rest evaluated,
      s.calls c = .running (.create .machine :: rest) evaluated → ∃ n, id = internalMachineId n
  | _ => True

/-- A call that has failed, taken for one that has returned. -/
def CallState.quiet : CallState → CallState
  | .ended _ => .ended (.ok ())
  | call => call

def StateManagers.quiet (s : StateManagers C) : StateManagers C :=
  { s with calls := fun c => (s.calls c).quiet }

omit [DecidableEq C] in
theorem quiet_pending (call : CallState) : call.quiet.pending = call.pending := by
  cases call <;> rfl

theorem goOn_quiet (ps : List CallPart) : (goOn ps).quiet = goOn ps := by
  cases ps <;> rfl

theorem setCall_quiet (s : StateManagers C) (c : C) (call : CallState) :
    (s.setCall c call).quiet = s.quiet.setCall c call.quiet := by
  simp only [StateManagers.quiet, StateManagers.setCall, StateManagers.mk.injEq, true_and]
  funext d
  simp only [Function.update_apply]
  split <;> rfl

/-- Which error a call has failed with has no part in what the topology is. -/
theorem step_quiet (s s' : StateManagers C) (e : ManagerEvent C) (h : ManagersInv s.quiet)
    (hs : s.step e = some s') : ManagersInv s'.quiet := by
  have hfailed (c : C) (e : ManagerError) :
      ManagersInv (s.setCall c (.ended (.error e))).quiet := by
    rw [setCall_quiet]
    exact setCall_inv h c (.ended (.ok ())) (List.nil_sublist _) (fun _ _ _ _ hgo => by cases hgo)
      (fun _ hgo => by cases hgo)
  cases e with
  | start c call =>
    simp only [StateManagers.step] at hs
    split at hs
    · cases hs
    · rename_i parts hparts _
      obtain rfl := Option.some.inj hs
      rw [setCall_quiet, goOn_quiet]
      apply goOn_inv h c
      rw [parts_creates call parts hparts]
      exact List.nil_sublist _
    · cases hs
    · obtain rfl := Option.some.inj hs
      exact hfailed c _
  | reply c r =>
    simp only [StateManagers.step] at hs
    split at hs
    · rename_i part rest evaluated hc
      have hc' : s.quiet.calls c = .running (part :: rest) evaluated := by
        simp only [StateManagers.quiet, hc, CallState.quiet]
      have hrest := pending_rest s.quiet c part rest evaluated hc'
      cases reply_turned s s' c part rest evaluated r hs with
      | nodesRead =>
        rw [setCall_quiet, goOn_quiet]
        exact goOn_inv h c rest hrest
      | nodesFail => exact hfailed c _
      | validated =>
        rw [setCall_quiet, goOn_quiet]
        exact goOn_inv h c rest hrest
      | validateFail => exact hfailed c _
      | created _ _ creation id hnew =>
        rw [setCall_quiet, goOn_quiet]
        exact created_inv h c creation id rest hnew hrest
      | read _ _ r parts hrun =>
        rw [setCall_quiet, goOn_quiet]
        apply goOn_inv h c
        rwa [List.filterMap_append, read_creates r parts hrun]
      | readFail => exact hfailed c _
      | evaluated _ change satisfies t hrun =>
        rw [setCall_quiet]
        apply setCall_inv h c
        · rw [hc']
          exact List.Sublist.refl _
        · intro part' rest' v t' heq
          cases heq
          exact ⟨le_rfl, fun _ => ⟨change, satisfies, rfl, hrun⟩⟩
        · intro e heq
          cases heq
      | evaluateFail => exact hfailed c _
      | set _ change t =>
        rw [setCall_quiet, goOn_quiet]
        exact set_inv h c change rest t hc'
      | conflict _ change version t hversion =>
        rw [setCall_quiet]
        apply setCall_inv h c
        · rw [hc']
          exact List.Sublist.refl _
        · intro part' rest' v t' heq
          cases heq
        · intro e heq
          cases heq
    · cases hs

/-- An id that a change has brought in is awaited by no call. -/
theorem committed_once {s : StateManagers C} (h : ManagersInv s.quiet) (c d : C)
    (change : TopologyChange) (rest : List CallPart) (evaluated : Option (Nat × InternalTopology))
    (hc : s.quiet.calls c = .running (.change change :: rest) evaluated)
    (k : NodeKind × String) (hk : change.creates = some k) :
    k ∉ (if d = c then goOn rest else s.calls d).pending := by
  have hparts : (s.quiet.calls c).pending = k :: rest.filterMap CallPart.creates := by
    have hpart : (CallPart.change change).creates = some k := hk
    rw [hc, CallState.pending, CallState.parts, List.filterMap_cons_some hpart]
  have honce := h.pendingOnce c
  rw [hparts, List.nodup_cons] at honce
  split
  · rw [goOn_pending]
    exact honce.1
  · rename_i hd
    intro hin
    rw [← quiet_pending] at hin
    exact h.pendingApart d c hd k hin (hparts ▸ List.mem_cons_self)

/-- Nothing in the topology refers to an id that is still to come in. -/
structure ManagersMake (s : StateManagers C) : Prop where
  sound : ManagersInv s.quiet
  ranked : Ranked s.topology
  paired : Paired s.topology
  apart : ∀ id, ((.unit, id) ∉ s.created ∨ ∃ c, (.unit, id) ∈ (s.calls c).pending) →
    Apart id s.topology
  sequenced : ∀ m, (.machine, m) ∈ s.created → ∃ n, m = internalMachineId n
  few : ∀ c, ∀ part ∈ (s.calls c).parts, part.FewEndpoints

section step

variable {s : StateManagers C} (h : ManagersMake s) (c : C)
include h

/-- A call that goes on without a write, bringing in nothing more. -/
theorem setCall_make (call : CallState) (hsound : ManagersInv (s.setCall c call).quiet)
    (hpending : call.pending ⊆ (s.calls c).pending)
    (hfew : ∀ part ∈ call.parts, part.FewEndpoints) : ManagersMake (s.setCall c call) := by
  refine ⟨hsound, h.ranked, h.paired, fun id hid => h.apart id ?_, h.sequenced, fun d => ?_⟩
  · rcases hid with hid | ⟨d, hd⟩
    · exact Or.inl hid
    · right
      simp only [StateManagers.setCall, Function.update_apply] at hd
      split at hd
      · exact ⟨c, hpending hd⟩
      · exact ⟨d, hd⟩
  · simp only [StateManagers.setCall, Function.update_apply]
    split
    · exact hfew
    · exact h.few d

theorem created_make (creation : Creation) (id : String) (rest : List CallPart)
    (evaluated : Option (Nat × InternalTopology))
    (hc : s.calls c = .running (.create creation :: rest) evaluated)
    (hnew : (creation.kind, id) ∉ s.created)
    (hsequenced : creation.kind = .machine → ∃ n, id = internalMachineId n)
    (hsound : ManagersInv ({ s with created := (creation.kind, id) :: s.created }.setCall c
      (goOn (creation.next id ++ rest))).quiet) :
    ManagersMake ({ s with created := (creation.kind, id) :: s.created }.setCall c
      (goOn (creation.next id ++ rest))) := by
  have hparts := h.few c
  rw [hc] at hparts
  refine ⟨hsound, h.ranked, h.paired, fun id' hid => ?_, fun m hm => ?_, fun d => ?_⟩
  · rcases hid with hid | ⟨d, hd⟩
    · exact h.apart id' (Or.inl fun hold => hid (List.mem_cons_of_mem _ hold))
    · simp only [StateManagers.setCall, Function.update_apply] at hd
      split at hd
      · rw [goOn_pending, List.filterMap_append, creation_creates, List.mem_append,
          List.mem_singleton] at hd
        rcases hd with hid | hd
        · exact h.apart id' (Or.inl (hid ▸ hnew))
        · refine h.apart id' (Or.inr ⟨c, ?_⟩)
          exact (pending_rest s c _ rest evaluated hc).subset hd
      · exact h.apart id' (Or.inr ⟨d, hd⟩)
  · rcases List.mem_cons.mp hm with heq | hm
    · obtain ⟨hkind, rfl⟩ := Prod.mk.inj heq
      exact hsequenced hkind.symm
    · exact h.sequenced m hm
  · simp only [StateManagers.setCall, Function.update_apply]
    split
    · intro part hpart
      rw [goOn_parts, List.mem_append] at hpart
      rcases hpart with hpart | hpart
      · exact creation_few creation id (hparts _ List.mem_cons_self) part hpart
      · exact hparts part (List.mem_cons_of_mem _ hpart)
    · exact h.few d

/-- A change set brings in the id that was waiting for it. -/
theorem set_make (change : TopologyChange) (rest : List CallPart) (t : InternalTopology)
    (hc : s.calls c = .running (.change change :: rest) (some (s.version, t)))
    (hsound : ManagersInv ({ s with topology := t, version := s.version + 1 }.setCall c
      (goOn rest)).quiet) :
    ManagersMake ({ s with topology := t, version := s.version + 1 }.setCall c (goOn rest)) := by
  have hc' : s.quiet.calls c = .running (.change change :: rest) (some (s.version, t)) := by
    simp only [StateManagers.quiet, hc, CallState.quiet]
  obtain ⟨-, hevaluated⟩ := h.sound.evaluated c _ _ _ _ hc'
  obtain ⟨change', satisfies, heq, hrun⟩ := hevaluated rfl
  cases heq
  have hown (k : NodeKind × String) (hk : change.creates = some k) :
      k ∈ (s.calls c).pending := by
    rw [hc]
    exact List.mem_filterMap.mpr ⟨.change change, List.mem_cons_self, hk⟩
  have hparts := h.few c
  rw [hc] at hparts
  refine ⟨hsound, ?_, ?_, fun id hid => ?_, h.sequenced, fun d => ?_⟩
  · exact change_ranked satisfies change s.topology t h.sound.integrity h.ranked
      (fun id hid => h.apart id (Or.inr ⟨c, hown _ hid⟩)) hrun
  · exact change_paired satisfies change s.topology t h.paired
      (hparts _ List.mem_cons_self) hrun
  · have hnot : change.creates ≠ some (.unit, id) := by
      intro hcreates
      rcases hid with hid | ⟨d, hd⟩
      · have hpending := (quiet_pending (s.calls c)).symm ▸ hown _ hcreates
        exact hid (h.sound.pendingNew c _ hpending).1
      · simp only [StateManagers.setCall, Function.update_apply] at hd
        exact committed_once h.sound c d change rest _ hc' (.unit, id) hcreates hd
    have hold : (.unit, id) ∉ s.created ∨ ∃ c, (.unit, id) ∈ (s.calls c).pending := by
      rcases hid with hid | ⟨d, hd⟩
      · exact Or.inl hid
      · right
        simp only [StateManagers.setCall, Function.update_apply] at hd
        split at hd
        · rw [goOn_pending] at hd
          exact ⟨c, (pending_rest s c _ rest _ hc).subset hd⟩
        · exact ⟨d, hd⟩
    have hkeeps := change_apart satisfies change id hnot s.quiet.topology
      ⟨h.sound.integrity, h.apart id hold⟩
    rw [hrun] at hkeeps
    exact hkeeps.2
  · simp only [StateManagers.setCall, Function.update_apply]
    split
    · intro part hpart
      rw [goOn_parts] at hpart
      exact hparts part (List.mem_cons_of_mem _ hpart)
    · exact h.few d

end step

theorem step_make (s s' : StateManagers C) (e : ManagerEvent C) (h : ManagersMake s)
    (hsequenced : SequencedNodes s e) (hs : s.step e = some s') : ManagersMake s' := by
  have hsound := step_quiet s s' e h.sound hs
  have hfailed (c : C) (e : ManagerError)
      (hsound : ManagersInv (s.setCall c (.ended (.error e))).quiet) :
      ManagersMake (s.setCall c (.ended (.error e))) :=
    setCall_make h c _ hsound (List.nil_subset _) (by simp [CallState.parts])
  cases e with
  | start c call =>
    simp only [StateManagers.step] at hs
    split at hs
    · cases hs
    · rename_i parts hparts _
      obtain rfl := Option.some.inj hs
      apply setCall_make h c _ hsound
      · rw [goOn_pending, parts_creates call parts hparts]
        exact List.nil_subset _
      · rw [goOn_parts]
        exact parts_few call parts hparts
    · cases hs
    · obtain rfl := Option.some.inj hs
      exact hfailed c _ hsound
  | reply c r =>
    simp only [StateManagers.step] at hs
    split at hs
    · rename_i part rest evaluated hc
      have hrest := (pending_rest s c part rest evaluated hc).subset
      have hparts := h.few c
      rw [hc] at hparts
      have hrestParts : ∀ part ∈ (goOn rest).parts, part.FewEndpoints := by
        rw [goOn_parts]
        exact fun part hpart => hparts part (List.mem_cons_of_mem _ hpart)
      cases reply_turned s s' c part rest evaluated r hs with
      | nodesRead => exact setCall_make h c _ hsound (goOn_pending rest ▸ hrest) hrestParts
      | nodesFail => exact hfailed c _ hsound
      | validated => exact setCall_make h c _ hsound (goOn_pending rest ▸ hrest) hrestParts
      | validateFail => exact hfailed c _ hsound
      | created _ _ creation id hnew =>
        refine created_make h c creation id rest evaluated hc hnew (fun hkind => ?_) hsound
        cases creation with
        | machine => exact hsequenced rest evaluated hc
        | _ => cases hkind
      | read _ _ r parts hrun =>
        apply setCall_make h c _ hsound
        · rw [goOn_pending, List.filterMap_append, read_creates r parts hrun]
          exact hrest
        · rw [goOn_parts] at hrestParts ⊢
          intro part hpart
          rcases List.mem_append.mp hpart with hpart | hpart
          · exact read_few s.topology r parts hrun part hpart
          · exact hrestParts part hpart
      | readFail => exact hfailed c _ hsound
      | evaluated _ change satisfies t hrun =>
        exact setCall_make h c _ hsound (by rw [hc]; exact List.Subset.refl _) hparts
      | evaluateFail => exact hfailed c _ hsound
      | set _ change t => exact set_make h c change rest t hc hsound
      | conflict _ change version t hversion =>
        exact setCall_make h c _ hsound (by rw [hc]; exact List.Subset.refl _) hparts
    · cases hs

/-- Whatever the order of the clients' steps, the topology is one that managers make. -/
theorem reachable_managerMade (s : StateManagers C)
    (h : Reachable StateManagers.Initial StateManagers.step SequencedNodes s) :
    ManagerMade s.topology := by
  have hinv := reachable_invariant ManagersMake
    (fun s hs => by
      have hquiet : s.quiet.Initial :=
        ⟨hs.topology, hs.created, fun c => by simp only [StateManagers.quiet, hs.calls c]; rfl⟩
      have hnone (c : C) : (s.calls c).parts = [] := by rw [hs.calls c]; rfl
      refine ⟨initial_managersInv _ hquiet, ⟨fun _ => 0, ?_⟩, ?_, fun id _ => ⟨?_, ?_⟩, ?_, ?_⟩
      · intro sid uid unit c hunit
        rw [hs.topology] at hunit
        cases hunit
      · intro rid relation hr
        rw [hs.topology] at hr
        cases hr
      · rintro ⟨sid, hsid⟩
        rw [hs.topology] at hsid
        exact hsid rfl
      · intro sid uid unit hunit
        rw [hs.topology] at hunit
        cases hunit
      · intro m hm
        rw [hs.created] at hm
        cases hm
      · intro c part hpart
        rw [hnone c] at hpart
        cases hpart)
    (fun s s' e hi he hs => step_make s s' e hi he hs) s h
  exact ⟨hinv.sound.integrity, hinv.ranked, hinv.paired,
    fun m hm => hinv.sequenced m (hinv.sound.named .machine m hm)⟩

end runs

end Juju.State
