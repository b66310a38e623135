import Juju.Base.AbsolutePath
import Juju.Base.Runs
import Juju.State.RelationIdents
import Juju.Unit.DiskState

namespace Juju.Unit.RebuiltRelations
open Juju.Base Juju.State

/-- What the lifecycle of a unit builds relation lifecycles with. -/
structure LifecycleUnit where
  internalServiceId : String
  internalUnitId : String
  unitName : String
  unitDir : String
  stateDir : String

/-- `relation_ident.split(":")[0]` -/
def identName (relationIdent : String) : String :=
  String.ofList (relationIdent.toList.takeWhile (· ≠ ':'))

structure UnitRelationLifecycle where
  unitName : String
  unitRelation : UnitRelationState
  relationIdent : String
  relationName : String
  unitDir : String
  schedulePath : String

structure RelationWorkflowState where
  unitRelation : UnitRelationState
  relationName : String
  lifecycle : UnitRelationLifecycle
  stateFilePath : String
  stateHistoryPath : String

/-- What `get_relation_info` stores under the internal id of a relation. -/
structure RelationInfo where
  relationName : String
  relationScope : String

/-- `RelationInvoker.get_environment_from_change` for a change of the lifecycle. -/
def UnitRelationLifecycle.environment (l : UnitRelationLifecycle) (unitName : String) :
    List (String × String) :=
  [("JUJU_RELATION", identName l.relationIdent), ("JUJU_RELATION_ID", l.relationIdent),
    ("JUJU_REMOTE_UNIT", unitName)]

namespace LifecycleUnit

variable (u : LifecycleUnit)

def newLifecycle (unitRelation : UnitRelationState) (relationIdent : String) :
    UnitRelationLifecycle where
  unitName := u.unitName
  unitRelation := unitRelation
  relationIdent := relationIdent
  relationName := identName relationIdent
  unitDir := u.unitDir
  schedulePath := join u.stateDir (unitRelation.internalRelationId ++ ".schedule")

def newWorkflow (unitRelation : UnitRelationState) (relationName : String)
    (lifecycle : UnitRelationLifecycle) : RelationWorkflowState :=
  let paths := fsWorkflowPaths u.stateDir
    (.unitRelation unitRelation.internalUnitId unitRelation.internalRelationId)
  ⟨unitRelation, relationName, lifecycle, paths.1, paths.2⟩

/-- What `_add_relation` builds; `get_unit_state` and `add_unit_state` give the same state of the
unit. `none` is the `IndexError` of the identifier. -/
def addRelation (r : ServiceRelationState) : Option RelationWorkflowState :=
  let unitRelation : UnitRelationState :=
    ⟨r.internalServiceId, u.internalUnitId, r.internalRelationId, r.relationScope⟩
  (getRelationIdent r.relationName r.internalRelationId).map fun relationIdent =>
    u.newWorkflow unitRelation r.relationName (u.newLifecycle unitRelation relationIdent)

/-- `_reconstruct_workflow`, to which `_load_relations` passes the stored name of the relation. -/
def reconstructWorkflow (relationId relationIdent relationScope : String) :
    RelationWorkflowState :=
  let unitRelation : UnitRelationState :=
    ⟨u.internalServiceId, u.internalUnitId, relationId, relationScope⟩
  u.newWorkflow unitRelation (identName relationIdent) (u.newLifecycle unitRelation relationIdent)

def loadRelation (relations : List ServiceRelationState) (relationId : String)
    (info : RelationInfo) : Option RelationWorkflowState :=
  match relations.find? fun r => r.internalRelationId = relationId with
  | some r => u.addRelation r
  | none => some (u.reconstructWorkflow relationId info.relationName info.relationScope)

/-- The loop of `_load_relations` over the known relations. -/
def loadRelations (relations : List ServiceRelationState) :
    List (Sigma fun _ : String => RelationInfo) → Option (Dict String RelationWorkflowState)
  | [] => some ∅
  | ⟨relationId, info⟩ :: known => do
    let workflow ← u.loadRelation relations relationId info
    let rest ← loadRelations relations known
    some (rest.insert relationId workflow)

end LifecycleUnit

/-- What `_store_relations` writes. -/
def storeRelations (relations : Dict String RelationWorkflowState) : Dict String RelationInfo :=
  relations.entries.foldl (fun d e => d.insert e.2.unitRelation.internalRelationId
    ⟨e.2.relationName, e.2.unitRelation.relationScope⟩) ∅

/-- The relations of the service, and the agent of one of its units. -/
structure RelationWorld where
  /-- All that there have been, and the ids of those that have been removed. -/
  created : List ServiceRelationState
  gone : List String
  /-- The number of the next relation node. -/
  sequence : Nat
  relations : Dict String RelationWorkflowState
  /-- The content of the file, once it is written. -/
  stored : Option (Dict String RelationInfo)
  /-- The workflow that was built first for a relation. -/
  originals : Dict String RelationWorkflowState

namespace RelationWorld

/-- The relations that still exist. -/
def current (w : RelationWorld) : List ServiceRelationState :=
  w.created.filter fun r => r.internalRelationId ∉ w.gone

end RelationWorld

inductive RelationEvent where
  | addRelationState (relationScope relationRole relationName : String)
  /-- A relation of other services takes a number. -/
  | otherRelation
  | removeRelationState (relationId : String)
  /-- `_add_relation` of a relation that the watch has seen, which may be gone by now. -/
  | add (relationId : String)
  | depart (relationId : String)
  | store
  | restart

def relationStep (u : LifecycleUnit) (w : RelationWorld) : RelationEvent → Option RelationWorld
  | .addRelationState scope role name =>
    let r : ServiceRelationState :=
      ⟨u.internalServiceId, sequenceRelationId w.sequence, scope, role, name⟩
    some { w with created := r :: w.created, sequence := w.sequence + 1 }
  | .otherRelation => some { w with sequence := w.sequence + 1 }
  | .removeRelationState relationId => some { w with gone := relationId :: w.gone }
  | .add relationId => do
    let r ← w.created.find? fun r => r.internalRelationId = relationId
    let workflow ← u.addRelation r
    some { w with
      relations := w.relations.insert relationId workflow
      originals :=
        if relationId ∈ w.originals then w.originals else w.originals.insert relationId workflow }
  | .depart relationId => some { w with relations := w.relations.erase relationId }
  | .store => some { w with stored := some (storeRelations w.relations) }
  | .restart =>
    match w.stored with
    | none => some { w with relations := ∅ }
    | some known =>
      (u.loadRelations w.current known.entries).map fun relations =>
        { w with relations := relations }

def noRelations : RelationWorld := ⟨[], [], 0, ∅, none, ∅⟩

/-- What a rebuilt workflow is to have as the original one has it. -/
structure SameLifecycle (rebuilt original : RelationWorkflowState) : Prop where
  relationName : rebuilt.relationName = original.relationName ∧
    rebuilt.lifecycle.relationName = original.lifecycle.relationName
  relationIdent : rebuilt.lifecycle.relationIdent = original.lifecycle.relationIdent
  environment : ∀ unitName,
    rebuilt.lifecycle.environment unitName = original.lifecycle.environment unitName
  relationScope : rebuilt.unitRelation.relationScope = original.unitRelation.relationScope ∧
    rebuilt.lifecycle.unitRelation.relationScope = original.lifecycle.unitRelation.relationScope
  workflowFiles : rebuilt.stateFilePath = original.stateFilePath ∧
    rebuilt.stateHistoryPath = original.stateHistoryPath
  scheduleFile : rebuilt.lifecycle.schedulePath = original.lifecycle.schedulePath

section steps

variable (u : LifecycleUnit)

theorem sequenceRelationId_injective (n n' : Nat)
    (h : sequenceRelationId n = sequenceRelationId n') : n = n' :=
  getRelationIdent_injective "" n n' (by rw [h])

theorem identName_length (relationIdent : String) :
    (identName relationIdent).toList.length ≤ relationIdent.toList.length := by
  rw [identName, String.toList_ofList]
  exact (List.takeWhile_prefix _).length_le

theorem identName_identName (relationIdent : String) :
    identName (identName relationIdent) = identName relationIdent := by
  rw [identName, identName, String.toList_ofList, List.takeWhile_takeWhile]
  simp

/-- The name of a relation, or what is left of it once it has been taken for an identifier. -/
def NameOf (r : ServiceRelationState) (name : String) : Prop :=
  name = r.relationName ∨ name = identName r.relationName

theorem nameOf_length (r : ServiceRelationState) (name : String) (h : NameOf r name) :
    name.toList.length ≤ r.relationName.toList.length := by
  rcases h with rfl | rfl
  · exact Nat.le_refl _
  · exact identName_length _

theorem nameOf_identName (r : ServiceRelationState) (name : String) (h : NameOf r name) :
    identName name = identName r.relationName := by
  rcases h with rfl | rfl
  · rfl
  · exact identName_identName _

/-- What is stored for a relation comes from it. -/
def InfoOf (w : RelationWorld) (relationId relationName relationScope : String) : Prop :=
  relationId ∈ w.originals ∧ ∃ r ∈ w.created, r.internalRelationId = relationId ∧
    relationScope = r.relationScope ∧ NameOf r relationName

structure WorldInv (w : RelationWorld) : Prop where
  fresh : ∀ r ∈ w.created, ∃ n < w.sequence, r.internalRelationId = sequenceRelationId n
  unique : ∀ r ∈ w.created, ∀ r' ∈ w.created,
    r.internalRelationId = r'.internalRelationId → r = r'
  originals : ∀ id workflow, w.originals.lookup id = some workflow →
    ∃ r ∈ w.created, r.internalRelationId = id ∧ u.addRelation r = some workflow
  relations : ∀ id workflow, w.relations.lookup id = some workflow →
    workflow.unitRelation.internalRelationId = id ∧
      InfoOf w id workflow.relationName workflow.unitRelation.relationScope
  stored : ∀ known, w.stored = some known → ∀ id info, known.lookup id = some info →
    InfoOf w id info.relationName info.relationScope

theorem infoOf_mono (w w' : RelationWorld) (id name scope : String)
    (hcreated : w.created ⊆ w'.created) (horiginals : ∀ id ∈ w.originals, id ∈ w'.originals)
    (h : InfoOf w id name scope) : InfoOf w' id name scope := by
  obtain ⟨hid, r, hr, hrest⟩ := h
  exact ⟨horiginals id hid, r, hcreated hr, hrest⟩

theorem addRelation_some (r : ServiceRelationState) (workflow : RelationWorkflowState)
    (h : u.addRelation r = some workflow) :
    workflow.unitRelation.internalRelationId = r.internalRelationId ∧
      workflow.unitRelation.relationScope = r.relationScope ∧
      workflow.relationName = r.relationName ∧
      getRelationIdent r.relationName r.internalRelationId =
        some workflow.lifecycle.relationIdent := by
  obtain ⟨relationIdent, hident, rfl⟩ := Option.map_eq_some_iff.mp h
  exact ⟨rfl, rfl, rfl, hident⟩

theorem addRelation_returns (r : ServiceRelationState) (n : Nat)
    (h : r.internalRelationId = sequenceRelationId n) :
    ∃ workflow, u.addRelation r = some workflow := by
  rw [LifecycleUnit.addRelation, h, getRelationIdent_sequence]
  exact ⟨_, rfl⟩

theorem storeRelations_lookup (entries : List (Sigma fun _ : String => RelationWorkflowState))
    (d : Dict String RelationInfo) (id : String) (info : RelationInfo)
    (h : (entries.foldl (fun d e => d.insert e.2.unitRelation.internalRelationId
      ⟨e.2.relationName, e.2.unitRelation.relationScope⟩) d).lookup id = some info) :
    d.lookup id = some info ∨ ∃ e ∈ entries, e.2.unitRelation.internalRelationId = id ∧
      info = ⟨e.2.relationName, e.2.unitRelation.relationScope⟩ := by
  induction entries generalizing d with
  | nil => exact Or.inl h
  | cons e entries ih =>
    rcases ih _ h with hhere | ⟨e', he', hinfo⟩
    · rw [Dict.lookup_insert] at hhere
      split at hhere
      · rename_i hid
        exact Or.inr ⟨e, List.mem_cons_self, hid.symm, (Option.some.inj hhere).symm⟩
      · exact Or.inl hhere
    · exact Or.inr ⟨e', List.mem_cons_of_mem _ he', hinfo⟩

section load

variable (relations : List ServiceRelationState)

theorem loadRelations_lookup (known : List (Sigma fun _ : String => RelationInfo))
    (result : Dict String RelationWorkflowState) (h : u.loadRelations relations known = some result)
    (id : String) (workflow : RelationWorkflowState) (hlookup : result.lookup id = some workflow) :
    ∃ info, ⟨id, info⟩ ∈ known ∧ u.loadRelation relations id info = some workflow := by
  induction known generalizing result with
  | nil =>
    obtain rfl := Option.some.inj h
    cases hlookup
  | cons e known ih =>
    obtain ⟨id₁, info₁⟩ := e
    obtain ⟨first, hfirst, h⟩ := Option.bind_eq_some_iff.mp h
    obtain ⟨rest, hrest, h⟩ := Option.bind_eq_some_iff.mp h
    obtain rfl := Option.some.inj h
    rw [Dict.lookup_insert] at hlookup
    split at hlookup
    · rename_i hid
      obtain rfl := hid
      obtain rfl := Option.some.inj hlookup
      exact ⟨info₁, List.mem_cons_self, hfirst⟩
    · obtain ⟨info, hin, hload⟩ := ih rest hrest hlookup
      exact ⟨info, List.mem_cons_of_mem _ hin, hload⟩

theorem loadRelations_returns (known : List (Sigma fun _ : String => RelationInfo))
    (h : ∀ e ∈ known, ∃ workflow, u.loadRelation relations e.1 e.2 = some workflow) :
    ∃ result, u.loadRelations relations known = some result ∧ ∀ e ∈ known, e.1 ∈ result := by
  induction known with
  | nil => exact ⟨∅, rfl, by simp⟩
  | cons e known ih =>
    obtain ⟨id, info⟩ := e
    obtain ⟨workflow, hworkflow⟩ := h _ List.mem_cons_self
    obtain ⟨rest, hrest, hall⟩ := ih fun e he => h e (List.mem_cons_of_mem _ he)
    refine ⟨rest.insert id workflow, ?_, fun e he => ?_⟩
    · simp [LifecycleUnit.loadRelations, hworkflow, hrest]
    · rw [AList.mem_insert]
      rcases List.mem_cons.mp he with rfl | he
      · exact Or.inl rfl
      · exact Or.inr (hall e he)

/-- A relation that is found is built as it is added; one that is not keeps what was stored. -/
theorem loadRelation_cases (id : String) (info : RelationInfo) (workflow : RelationWorkflowState)
    (h : u.loadRelation relations id info = some workflow) :
    (∃ r ∈ relations, r.internalRelationId = id ∧ u.addRelation r = some workflow) ∨
      (∀ r ∈ relations, r.internalRelationId ≠ id) ∧
        workflow = u.reconstructWorkflow id info.relationName info.relationScope := by
  rw [LifecycleUnit.loadRelation] at h
  cases hfind : relations.find? fun r => r.internalRelationId = id with
  | none =>
    rw [hfind] at h
    refine Or.inr ⟨fun r hr => ?_, (Option.some.inj h).symm⟩
    simpa using List.find?_eq_none.mp hfind r hr
  | some r =>
    rw [hfind] at h
    have hid : r.internalRelationId = id := by simpa using List.find?_some hfind
    exact Or.inl ⟨r, List.mem_of_find?_eq_some hfind, hid, h⟩

end load

/-- A relation gets the number of a node that there has not been. -/
theorem addRelationState_inv (w : RelationWorld) (r : ServiceRelationState) (h : WorldInv u w)
    (hr : r.internalRelationId = sequenceRelationId w.sequence) :
    WorldInv u { w with created := r :: w.created, sequence := w.sequence + 1 } := by
  have hnew : ∀ r' ∈ w.created, r.internalRelationId ≠ r'.internalRelationId := by
    intro r' hr' hid
    obtain ⟨n, hn, hid'⟩ := h.fresh r' hr'
    rw [hr, hid'] at hid
    exact absurd (sequenceRelationId_injective _ _ hid) (Nat.ne_of_gt hn)
  have hmono {id name scope : String} (hinfo : InfoOf w id name scope) :
      InfoOf { w with created := r :: w.created, sequence := w.sequence + 1 } id name scope :=
    infoOf_mono w _ id name scope (List.subset_cons_self _ _) (fun _ hid => hid) hinfo
  refine ⟨fun r' hr' => ?_, fun r₁ h₁ r₂ h₂ hid => ?_, fun id workflow hlookup => ?_,
    fun id workflow hlookup => ?_, fun known hknown id info hlookup => ?_⟩
  · rcases List.mem_cons.mp hr' with rfl | hold
    · exact ⟨w.sequence, Nat.lt_succ_self _, hr⟩
    · obtain ⟨n, hn, hid⟩ := h.fresh r' hold
      exact ⟨n, Nat.lt_succ_of_lt hn, hid⟩
  · rcases List.mem_cons.mp h₁ with rfl | hold₁ <;> rcases List.mem_cons.mp h₂ with rfl | hold₂
    · rfl
    · exact absurd hid (hnew r₂ hold₂)
    · exact absurd hid.symm (hnew r₁ hold₁)
    · exact h.unique r₁ hold₁ r₂ hold₂ hid
  · obtain ⟨r', hr', hrest⟩ := h.originals id workflow hlookup
    exact ⟨r', List.mem_cons_of_mem _ hr', hrest⟩
  · obtain ⟨hid, hinfo⟩ := h.relations id workflow hlookup
    exact ⟨hid, hmono hinfo⟩
  · exact hmono (h.stored known hknown id info hlookup)

theorem add_inv (w : RelationWorld) (r : ServiceRelationState) (workflow : RelationWorkflowState)
    (h : WorldInv u w) (hr : r ∈ w.created) (hworkflow : u.addRelation r = some workflow) :
    WorldInv u { w with
      relations := w.relations.insert r.internalRelationId workflow
      originals := if r.internalRelationId ∈ w.originals then w.originals
        else w.originals.insert r.internalRelationId workflow } := by
  obtain ⟨hid, hscope, hname, -⟩ := addRelation_some u r workflow hworkflow
  have hold : ∀ id ∈ w.originals, id ∈ (if r.internalRelationId ∈ w.originals then w.originals
      else w.originals.insert r.internalRelationId workflow) := by
    intro id hin
    split
    · exact hin
    · exact (AList.mem_insert w.originals).mpr (Or.inr hin)
  have hmono {id name scope : String} (hinfo : InfoOf w id name scope) :
      InfoOf { w with
        relations := w.relations.insert r.internalRelationId workflow
        originals := if r.internalRelationId ∈ w.originals then w.originals
          else w.originals.insert r.internalRelationId workflow } id name scope :=
    infoOf_mono w _ id name scope (List.Subset.refl _) hold hinfo
  refine ⟨h.fresh, h.unique, fun id found hlookup => ?_, fun id found hlookup => ?_,
    fun known hknown id info hlookup => hmono (h.stored known hknown id info hlookup)⟩
  · dsimp only at hlookup
    split at hlookup
    · exact h.originals id found hlookup
    · rw [Dict.lookup_insert] at hlookup
      split at hlookup
      · rename_i hsame
        exact ⟨r, hr, hsame.symm, (Option.some.inj hlookup) ▸ hworkflow⟩
      · exact h.originals id found hlookup
  · rw [Dict.lookup_insert] at hlookup
    split at hlookup
    · rename_i hsame
      obtain rfl := Option.some.inj hlookup
      refine ⟨hid.trans hsame.symm, ?_, r, hr, hsame.symm, hscope, Or.inl hname⟩
      by_cases hin : r.internalRelationId ∈ w.originals <;> simp [hin, hsame]
    · obtain ⟨hfound, hinfo⟩ := h.relations id found hlookup
      exact ⟨hfound, hmono hinfo⟩

theorem restart_inv (w : RelationWorld) (known : Dict String RelationInfo)
    (relations : Dict String RelationWorkflowState) (h : WorldInv u w)
    (hknown : w.stored = some known)
    (hload : u.loadRelations w.current known.entries = some relations) :
    WorldInv u { w with relations := relations } := by
  refine ⟨h.fresh, h.unique, h.originals, fun id workflow hlookup => ?_, h.stored⟩
  obtain ⟨info, hin, hworkflow⟩ := loadRelations_lookup u w.current known.entries relations hload id
    workflow hlookup
  obtain ⟨horiginal, r, hr, hid, hscope, hname⟩ :=
    h.stored known hknown id info ((Dict.mem_entries_iff known ⟨id, info⟩).mp hin)
  rcases loadRelation_cases u w.current id info workflow hworkflow with
    ⟨r', hr', hid', hadd⟩ | ⟨-, rfl⟩
  · obtain ⟨hworkflowId, hworkflowScope, hworkflowName, -⟩ := addRelation_some u r' workflow hadd
    obtain rfl := h.unique r' (List.mem_of_mem_filter hr') r hr (hid'.trans hid.symm)
    exact ⟨hworkflowId.trans hid, horiginal, r', hr, hid, hworkflowScope,
      Or.inl hworkflowName⟩
  · exact ⟨rfl, horiginal, r, hr, hid, hscope, Or.inr (nameOf_identName r _ hname)⟩

theorem relationStep_inv (w w' : RelationWorld) (e : RelationEvent) (h : WorldInv u w)
    (hstep : relationStep u w e = some w') : WorldInv u w' := by
  cases e with
  | addRelationState scope role name =>
    obtain rfl := Option.some.inj hstep
    exact addRelationState_inv u w _ h rfl
  | otherRelation =>
    obtain rfl := Option.some.inj hstep
    refine ⟨fun r hr => ?_, h.unique, h.originals, h.relations, h.stored⟩
    obtain ⟨n, hn, hid⟩ := h.fresh r hr
    exact ⟨n, Nat.lt_succ_of_lt hn, hid⟩
  | removeRelationState relationId =>
    obtain rfl := Option.some.inj hstep
    exact ⟨h.fresh, h.unique, h.originals, h.relations, h.stored⟩
  | add relationId =>
    obtain ⟨r, hfind, hstep⟩ := Option.bind_eq_some_iff.mp hstep
    obtain ⟨workflow, hworkflow, hstep⟩ := Option.bind_eq_some_iff.mp hstep
    obtain rfl := Option.some.inj hstep
    obtain rfl : r.internalRelationId = relationId := by simpa using List.find?_some hfind
    exact add_inv u w r workflow h (List.mem_of_find?_eq_some hfind) hworkflow
  | depart relationId =>
    obtain rfl := Option.some.inj hstep
    refine ⟨h.fresh, h.unique, h.originals, fun id workflow hlookup => ?_, h.stored⟩
    rw [Dict.lookup_erase] at hlookup
    split at hlookup
    · cases hlookup
    · exact h.relations id workflow hlookup
  | store =>
    obtain rfl := Option.some.inj hstep
    refine ⟨h.fresh, h.unique, h.originals, h.relations, fun known hknown id info hlookup => ?_⟩
    obtain rfl := Option.some.inj hknown
    rcases storeRelations_lookup w.relations.entries ∅ id info hlookup with
      hempty | ⟨e, he, hid, rfl⟩
    · cases hempty
    · obtain ⟨hkey, hinfo⟩ := h.relations e.1 e.2 ((Dict.mem_entries_iff _ e).mp he)
      exact (hkey.symm.trans hid) ▸ hinfo
  | restart =>
    rw [relationStep] at hstep
    split at hstep
    · obtain rfl := Option.some.inj hstep
      refine ⟨h.fresh, h.unique, h.originals, fun id workflow hlookup => ?_, h.stored⟩
      cases hlookup
    · rename_i known hknown
      obtain ⟨relations, hload, rfl⟩ := Option.map_eq_some_iff.mp hstep
      exact restart_inv u w known relations h hknown hload

theorem noRelations_inv : WorldInv u noRelations := by
  refine ⟨by simp [noRelations], by simp [noRelations], fun id workflow hlookup => ?_,
    fun id workflow hlookup => ?_, fun known hknown => ?_⟩
  · cases hlookup
  · cases hlookup
  · cases hknown

end steps

section rebuilt

variable (u : LifecycleUnit)

/-- A name that is no longer than the relation's is not its identifier. -/
theorem reconstruct_differs (r : ServiceRelationState) (original : RelationWorkflowState)
    (n : Nat) (hid : r.internalRelationId = sequenceRelationId n)
    (horiginal : u.addRelation r = some original) (id name scope : String)
    (hlength : name.toList.length ≤ r.relationName.toList.length) :
    ¬ SameLifecycle (u.reconstructWorkflow id name scope) original := by
  intro hsame
  obtain ⟨-, -, -, hident⟩ := addRelation_some u r original horiginal
  rw [hid, getRelationIdent_sequence, Option.some.injEq] at hident
  have hname : name = original.lifecycle.relationIdent := hsame.relationIdent
  rw [← hident] at hname
  have hlong := congrArg (fun s => s.toList.length) hname
  simp only [String.toList_ofList, List.length_append, List.length_cons] at hlong
  omega

/-- What a restart makes of a stored relation: the original workflow where the relation is found,
and one of what is stored where it is gone. -/
theorem restart_spec (w : RelationWorld)
    (h : Reachable (fun w => w = noRelations) (relationStep u) (fun _ _ => True) w)
    (known : Dict String RelationInfo) (hstored : w.stored = some known) :
    ∃ w', relationStep u w .restart = some w' ∧ ∀ id ∈ known, ∃ rebuilt original r n,
      w'.relations.lookup id = some rebuilt ∧ w'.originals.lookup id = some original ∧
      r.internalRelationId = id ∧ id = sequenceRelationId n ∧ u.addRelation r = some original ∧
      ((∃ r' ∈ w.current, r'.internalRelationId = id) ∧ rebuilt = original ∨
        (∀ r' ∈ w.current, r'.internalRelationId ≠ id) ∧
          ∃ name, NameOf r name ∧ rebuilt = u.reconstructWorkflow id name r.relationScope) := by
  have hinv : WorldInv u w := reachable_invariant (WorldInv u)
    (fun w (hw : w = noRelations) => hw ▸ noRelations_inv u)
    (fun w w' e hw _ hstep => relationStep_inv u w w' e hw hstep) w h
  have hloads : ∀ e ∈ known.entries, ∃ workflow,
      u.loadRelation w.current e.1 e.2 = some workflow := by
    intro e _
    rw [LifecycleUnit.loadRelation]
    cases hfind : w.current.find? fun r => r.internalRelationId = e.1 with
    | none => exact ⟨_, rfl⟩
    | some r =>
      have hr : r ∈ w.created := List.mem_of_mem_filter (List.mem_of_find?_eq_some hfind)
      obtain ⟨n, -, hid⟩ := hinv.fresh r hr
      exact addRelation_returns u r n hid
  obtain ⟨relations, hrelations, hall⟩ := loadRelations_returns u w.current known.entries hloads
  refine ⟨{ w with relations := relations }, ?_, fun id hid => ?_⟩
  · rw [relationStep, hstored]
    simp [hrelations]
  · obtain ⟨info, hinfo⟩ := (Dict.mem_iff_lookup known id).mp hid
    obtain ⟨horiginal, -⟩ := hinv.stored known hstored id info hinfo
    obtain ⟨original, horiginal⟩ := (Dict.mem_iff_lookup _ _).mp horiginal
    obtain ⟨rebuilt, hrebuilt⟩ := (Dict.mem_iff_lookup relations id).mp
      (hall ⟨id, info⟩ ((Dict.mem_entries_iff known ⟨id, info⟩).mpr hinfo))
    obtain ⟨info', hin, hload⟩ := loadRelations_lookup u w.current known.entries relations hrelations
      id rebuilt hrebuilt
    obtain ⟨-, r, hr, rfl, hscope, hname⟩ := hinv.stored known hstored id info'
      ((Dict.mem_entries_iff known ⟨id, info'⟩).mp hin)
    obtain ⟨r', hr', hrid', hadd⟩ := hinv.originals _ original horiginal
    obtain rfl := hinv.unique r' hr' r hr hrid'
    obtain ⟨n, -, hn⟩ := hinv.fresh r' hr
    refine ⟨rebuilt, original, r', n, hrebuilt, horiginal, rfl, hn, hadd, ?_⟩
    rcases loadRelation_cases u w.current _ info' rebuilt hload with
      ⟨r, hcurrent, hid', hload'⟩ | ⟨hgone, rfl⟩
    · refine Or.inl ⟨⟨r, hcurrent, hid'⟩, ?_⟩
      obtain rfl := hinv.unique r (List.mem_of_mem_filter hcurrent) r' hr hid'
      exact Option.some.inj (hload'.symm.trans hadd)
    · exact Or.inr ⟨hgone, info'.relationName, hname, by rw [hscope]⟩

/-- After a restart, each relation that was stored has a lifecycle, and this is as it was built
first just when the relation still exists: else it has the name in the place of the identifier. -/
theorem rebuilt_iff (w : RelationWorld)
    (h : Reachable (fun w => w = noRelations) (relationStep u) (fun _ _ => True) w)
    (known : Dict String RelationInfo) (hstored : w.stored = some known) :
    ∃ w', relationStep u w .restart = some w' ∧
      ∀ id ∈ known, ∃ rebuilt original, w'.relations.lookup id = some rebuilt ∧
        w'.originals.lookup id = some original ∧
        (SameLifecycle rebuilt original ↔ ∃ r ∈ w.current, r.internalRelationId = id) := by
  obtain ⟨w', hstep, hall⟩ := restart_spec u w h known hstored
  refine ⟨w', hstep, fun id hid => ?_⟩
  obtain ⟨rebuilt, original, r, n, hrebuilt, horiginal, hrid, hn, hadd, hcase⟩ := hall id hid
  refine ⟨rebuilt, original, hrebuilt, horiginal, ?_⟩
  rcases hcase with ⟨hexists, rfl⟩ | ⟨hgone, name, hname, rfl⟩
  · exact iff_of_true ⟨⟨rfl, rfl⟩, rfl, fun _ => rfl, ⟨rfl, rfl⟩, ⟨rfl, rfl⟩, rfl⟩ hexists
  · refine iff_of_false ?_ fun hexists => ?_
    · exact reconstruct_differs u r original n (hrid.trans hn) hadd id _ _ (nameOf_length r _ hname)
    · obtain ⟨r', hcurrent, hid'⟩ := hexists
      exact hgone r' hcurrent hid'

theorem identName_ident (name : String) (digits : List Char) :
    identName (String.ofList (name.toList ++ ':' :: digits)) = identName name := by
  rw [identName, identName, String.toList_ofList]
  congr 1
  induction name.toList with
  | nil => simp
  | cons c cs ih =>
    rw [List.cons_append, List.takeWhile_cons, List.takeWhile_cons, ih]

/-- The lifecycle of a relation that is gone has the same scope and files as it was built with, and
its hooks have the same names. -/
theorem rebuilt_keeps (w : RelationWorld)
    (h : Reachable (fun w => w = noRelations) (relationStep u) (fun _ _ => True) w)
    (known : Dict String RelationInfo) (hstored : w.stored = some known) :
    ∃ w', relationStep u w .restart = some w' ∧
      ∀ id ∈ known, ∃ rebuilt original, w'.relations.lookup id = some rebuilt ∧
        w'.originals.lookup id = some original ∧
        rebuilt.unitRelation.relationScope = original.unitRelation.relationScope ∧
        rebuilt.stateFilePath = original.stateFilePath ∧
        rebuilt.stateHistoryPath = original.stateHistoryPath ∧
        rebuilt.lifecycle.schedulePath = original.lifecycle.schedulePath ∧
        rebuilt.lifecycle.relationName = original.lifecycle.relationName := by
  obtain ⟨w', hstep, hall⟩ := restart_spec u w h known hstored
  refine ⟨w', hstep, fun id hid => ?_⟩
  obtain ⟨rebuilt, original, r, n, hrebuilt, horiginal, rfl, hn, hadd, hcase⟩ := hall id hid
  refine ⟨rebuilt, original, hrebuilt, horiginal, ?_⟩
  rcases hcase with ⟨-, rfl⟩ | ⟨-, name, hname, rfl⟩
  · exact ⟨rfl, rfl, rfl, rfl, rfl⟩
  · rw [LifecycleUnit.addRelation, hn, getRelationIdent_sequence, ← hn] at hadd
    obtain rfl := Option.some.inj hadd
    refine ⟨rfl, rfl, rfl, rfl, ?_⟩
    exact (nameOf_identName r name hname).trans (identName_ident r.relationName _).symm

/-- The agent of wordpress/0. -/
def wordpressUnit : LifecycleUnit :=
  ⟨"service-0000000000", "unit-0000000000", "wordpress/0", "/var/lib/juju/units/wordpress-0",
    "/var/lib/juju/state"⟩

/-- The database is related, and the relation is stored. -/
def relatedEvents : List RelationEvent :=
  [.addRelationState "global" "client" "db", .add "relation-0000000000", .store]

theorem rebuilt_iff_related : ∃ w w' rebuilt original,
    stepAll (relationStep wordpressUnit) noRelations relatedEvents = some w ∧
      relationStep wordpressUnit w .restart = some w' ∧
      w'.relations.lookup "relation-0000000000" = some rebuilt ∧
      w'.originals.lookup "relation-0000000000" = some original ∧
      SameLifecycle rebuilt original := by
  obtain ⟨w', hstep, hall⟩ := rebuilt_iff wordpressUnit _ (reachable_stepAll (fun _ _ => trivial)
    relatedEvents noRelations _ (.init _ rfl) rfl) _ rfl
  obtain ⟨rebuilt, original, hrebuilt, horiginal, hsame⟩ := hall "relation-0000000000" (by decide)
  exact ⟨_, w', rebuilt, original, rfl, hstep, hrebuilt, horiginal,
    hsame.mpr ⟨_, List.mem_cons_self, rfl⟩⟩

/-- The relation is removed while the agent is down: its identifier is then `db`, not `db:0`. -/
theorem removed_ident :
    ¬ ∀ (u : LifecycleUnit) (w : RelationWorld),
      Reachable (fun w => w = noRelations) (relationStep u) (fun _ _ => True) w →
      ∀ known, w.stored = some known →
        ∃ w', relationStep u w .restart = some w' ∧
          ∀ id ∈ known, ∃ rebuilt original, w'.relations.lookup id = some rebuilt ∧
            w'.originals.lookup id = some original ∧ SameLifecycle rebuilt original := by
  intro h
  obtain ⟨w', hstep, hall⟩ := h wordpressUnit _ (reachable_stepAll (fun _ _ => trivial)
    (relatedEvents ++ [.removeRelationState "relation-0000000000"]) noRelations _ (.init _ rfl) rfl)
    _ rfl
  obtain ⟨rebuilt, original, hrebuilt, horiginal, hsame⟩ := hall "relation-0000000000" (by decide)
  obtain rfl := Option.some.inj hstep
  obtain rfl := Option.some.inj hrebuilt
  obtain rfl := Option.some.inj horiginal
  exact absurd hsame.relationIdent (by decide)

end rebuilt

end Juju.Unit.RebuiltRelations
