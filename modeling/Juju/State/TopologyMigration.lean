import Juju.Lib.Entries
import Juju.State.Topology

namespace Juju.State
open Juju.Base Juju.Lib

/-- What a stored topology is made of. -/
inductive Data where
  | none
  | int (i : Int)
  | text (s : String)
  | list (items : List Data)
  | dict (entries : List (String × Data))

/-- The content of the topology node, with what it has besides its version. -/
structure StoredTopology where
  version : Option Int
  entries : List (String × Data)

inductive MigrationError where
  | incompatibleVersion (current wanted : Int)
  | other (name : String)
  deriving DecidableEq

def VERSION : Int := 2

namespace StoredTopology

/-- `_state.get("version", 0)` -/
def getVersion (t : StoredTopology) : Int := t.version.getD 0

end StoredTopology

/-- `_VERSION_MIGRATION`: a step from a version raises, or makes the version one higher. -/
structure MigrationTable where
  step : Int → Option (StoredTopology → Except MigrationError StoredTopology)
  increases : ∀ version run t t', step version = some run → t.getVersion = version →
    run t = .ok t' → t'.getVersion = version + 1

namespace StoredTopology

section gate

variable (table : MigrationTable)

/-- The loop of `migrate_topology`, which began with `version`. -/
def migrateLoop (version : Int) (t : StoredTopology) : Except MigrationError StoredTopology :=
  if t.getVersion < VERSION then
    match _hstep : table.step t.getVersion with
    | none => .error (.incompatibleVersion version VERSION)
    | some run =>
      match _hrun : run t with
      | .error e => .error e
      | .ok t' => migrateLoop version t'
  else .ok t
  termination_by (VERSION - t.getVersion).toNat
  decreasing_by
    have hversion := table.increases _ run t t' _hstep rfl _hrun
    omega

def migrateTopology (t : StoredTopology) : Except MigrationError StoredTopology :=
  if t.getVersion = VERSION then .ok t else migrateLoop table t.getVersion t

def parse (data : StoredTopology) : Except MigrationError StoredTopology :=
  if data.getVersion ≠ VERSION then migrateTopology table data else .ok data

/-- The new content that `_retry_topology_change` gives to `retry_change`. -/
def changeContent (change : StoredTopology → Except MigrationError StoredTopology)
    (content : Option StoredTopology) : Except MigrationError StoredTopology := do
  let topology ←
    match content with
    | some data => parse table data
    | none => .ok ⟨some VERSION, []⟩
  change topology

/-- The steps of the table, one after the other, lead from one topology to another. -/
inductive Reaches : StoredTopology → StoredTopology → Prop
  | refl (t : StoredTopology) : Reaches t t
  | step (t t' t'' : StoredTopology)
      (run : StoredTopology → Except MigrationError StoredTopology) :
      t.getVersion < VERSION → table.step t.getVersion = some run → run t = .ok t' →
      Reaches t' t'' → Reaches t t''

/-- The topology is read with the current version, or refused, and one that newer code has written
is never written back. -/
def VersionGated (data : StoredTopology) : Prop :=
  ((∃ t, parse table data = .ok t ∧ t.getVersion = VERSION) ∨
      ∃ current wanted, parse table data = .error (.incompatibleVersion current wanted)) ∧
    (VERSION < data.getVersion → ∀ change t, changeContent table change (some data) ≠ .ok t)

theorem migrateLoop_done (version : Int) (t : StoredTopology) (h : ¬ t.getVersion < VERSION) :
    migrateLoop table version t = .ok t := by
  unfold migrateLoop
  rw [if_neg h]

theorem migrateLoop_step (version : Int) (t : StoredTopology)
    (run : StoredTopology → Except MigrationError StoredTopology) (h : t.getVersion < VERSION)
    (hstep : table.step t.getVersion = some run) :
    migrateLoop table version t = run t >>= migrateLoop table version := by
  rw [migrateLoop, if_pos h]
  split
  · rename_i hnone
    rw [hstep] at hnone
    cases hnone
  · rename_i run' hrun'
    rw [hstep] at hrun'
    cases hrun'
    split
    · rename_i e he
      rw [he]
      rfl
    · rename_i t' ht'
      rw [ht']
      rfl

theorem migrateLoop_reaches (version : Int) (t t' : StoredTopology) (h : Reaches table t t') :
    migrateLoop table version t = migrateLoop table version t' := by
  induction h with
  | refl t => rfl
  | step t t' t'' run hversion hstep hrun _ ih =>
    rw [migrateLoop_step table version t run hversion hstep, hrun]
    exact ih

/-- The loop ends with the current version, or with what raises where it has got to. -/
theorem migrateLoop_ends (version : Int) (t : StoredTopology) (h : t.getVersion ≤ VERSION) :
    (∃ t', migrateLoop table version t = .ok t' ∧ t'.getVersion = VERSION) ∨
      ∃ e, migrateLoop table version t = .error e ∧
        (e = .incompatibleVersion version VERSION ∨
          ∃ t' run, Reaches table t t' ∧ t'.getVersion < VERSION ∧
            table.step t'.getVersion = some run ∧ run t' = .error e) := by
  fun_induction migrateLoop table version t with
  | case1 t hversion hstep => exact Or.inr ⟨_, rfl, Or.inl rfl⟩
  | case2 t hversion run hstep e he =>
    exact Or.inr ⟨e, rfl, Or.inr ⟨t, run, .refl t, hversion, hstep, he⟩⟩
  | case3 t hversion run hstep t' ht' ih =>
    have hnext := table.increases _ run t t' hstep rfl ht'
    rcases ih (by omega) with hreturns | ⟨e, he, hraised⟩
    · exact Or.inl hreturns
    · refine Or.inr ⟨e, he, hraised.imp_right ?_⟩
      rintro ⟨t'', run', hreaches, hrest⟩
      exact ⟨t'', run', .step t t' t'' run hversion hstep ht' hreaches, hrest⟩
  | case4 t hversion => exact Or.inl ⟨t, rfl, by omega⟩

/-- The gate holds just for what is not newer, if the steps that are reached raise nothing but
`IncompatibleVersion`. -/
theorem versionGated_iff (data : StoredTopology) :
    VersionGated table data ↔
      data.getVersion ≤ VERSION ∧
        ∀ t run e, Reaches table data t → t.getVersion < VERSION →
          table.step t.getVersion = some run → run t = .error e →
            ∃ current wanted, e = .incompatibleVersion current wanted := by
  have hparse : parse table data = migrateLoop table data.getVersion data := by
    by_cases hversion : data.getVersion = VERSION
    · rw [parse, if_neg (not_not.mpr hversion), migrateLoop_done table _ _ (by omega)]
    · rw [parse, if_pos hversion, migrateTopology, if_neg hversion]
  unfold VersionGated
  rw [hparse]
  constructor
  · rintro ⟨hgate, -⟩
    have hversion : data.getVersion ≤ VERSION := by
      by_contra hnewer
      rw [migrateLoop_done table _ _ (by omega)] at hgate
      rcases hgate with ⟨t, ht, hcurrent⟩ | ⟨current, wanted, hraised⟩
      · cases ht
        omega
      · cases hraised
    refine ⟨hversion, fun t run e hreaches ht hstep he => ?_⟩
    rw [migrateLoop_reaches table _ _ _ hreaches, migrateLoop_step table _ t run ht hstep, he] at hgate
    rcases hgate with ⟨t', ht', -⟩ | ⟨current, wanted, hraised⟩
    · cases ht'
    · exact ⟨current, wanted, Except.error.inj hraised⟩
  · rintro ⟨hversion, hsteps⟩
    refine ⟨?_, fun hnewer => absurd hversion (by omega)⟩
    rcases migrateLoop_ends table data.getVersion data hversion with hreturns | ⟨e, he, hraised⟩
    · exact Or.inl hreturns
    · rcases hraised with rfl | ⟨t, run, hreaches, ht, hstep, hrun⟩
      · exact Or.inr ⟨_, _, he⟩
      · obtain ⟨current, wanted, rfl⟩ := hsteps t run e hreaches ht hstep hrun
        exact Or.inr ⟨current, wanted, he⟩

/-- The table as it stands, without a step. -/
def noMigration : MigrationTable := ⟨fun _ => none, by simp⟩

/-- A topology of version 3 is read, changed and written back. -/
theorem newer_written_back :
    ¬ VersionGated noMigration ⟨some 3, []⟩ ∧
      changeContent noMigration (fun t => .ok { t with entries := [("machines", .dict [])] })
        (some ⟨some 3, []⟩) = .ok ⟨some 3, [("machines", .dict [])]⟩ := by
  have hread : parse noMigration ⟨some 3, []⟩ = .ok ⟨some 3, []⟩ := by
    rw [parse, if_pos (by decide), migrateTopology, if_neg (by decide),
      migrateLoop_done _ _ _ (by decide)]
  constructor
  · rw [versionGated_iff]
    exact fun h => absurd h.1 (by decide)
  · rw [changeContent, hread]
    rfl

end gate

section migration

def truthy : Data → Bool
  | .none => false
  | .int i => i ≠ 0
  | .text s => s ≠ ""
  | .list items => !items.isEmpty
  | .dict entries => !entries.isEmpty

/-- `a, b = data` -/
def unpack : Data → Option (Data × Data)
  | .list [a, b] => some (a, b)
  | .dict [(a, _), (b, _)] => some (.text a, .text b)
  | .text s =>
    match s.toList with
    | [a, b] => some (.text (String.singleton a), .text (String.singleton b))
    | _ => none
  | _ => none

/-- One turn of the loop of `_migrate_version_1`. -/
def migrateRelation (newRelations : List (String × Data)) (e : String × Data) :
    Except MigrationError (List (String × Data)) :=
  match unpack e.2 with
  | none => .error (.other "ValueError")
  | some (relationType, relationServices) =>
    .ok (Entries.assign "services" relationServices
      (Entries.assign "scope" (.text "global")
        (Entries.assign "interface" relationType (Entries.assign e.1 (.dict []) newRelations))))

/-- `_migrate_version_1` -/
def migrateVersion1 (t : StoredTopology) : Except MigrationError StoredTopology :=
  if t.getVersion > 1 then .ok t
  else if t.getVersion ≠ 1 then .error (.incompatibleVersion t.getVersion VERSION)
  else
    match t.entries.lookup "relations" with
    | none => .ok { t with version := some 2 }
    | some relations =>
      if truthy relations then
        match relations with
        | .dict entries => do
          let newRelations ← entries.foldlM migrateRelation []
          .ok ⟨some 2, Entries.assign "relations" (.dict newRelations) t.entries⟩
        | _ => .error (.other "AttributeError")
      else .ok { t with version := some 2 }

/-- What asking a topology for relations may raise. -/
inductive QueryError where
  | relationNotFound (relationId : String)
  | serviceNotFound (serviceId : String)
  | keyError (key : String)
  | typeError
  deriving DecidableEq

/-- `data[key]` -/
def subscript (data : Data) (key : String) : Except QueryError Data :=
  match data with
  | .dict entries => (entries.lookup key).elim (.error (.keyError key)) .ok
  | _ => .error .typeError

/-- The dictionary at a key of the topology; one that is absent is empty. -/
def dictAt (t : StoredTopology) (key : String) : Except QueryError (List (String × Data)) :=
  match t.entries.lookup key with
  | none => .ok []
  | some (.dict entries) => .ok entries
  | some _ => .error .typeError

def getRelations (t : StoredTopology) : Except QueryError (List String) := do
  return (← dictAt t "relations").map Prod.fst

def relationData (t : StoredTopology) (relationId : String) : Except QueryError Data := do
  let relations ← dictAt t "relations"
  (relations.lookup relationId).elim (.error (.relationNotFound relationId)) .ok

def getRelationServices (t : StoredTopology) (relationId : String) : Except QueryError Data := do
  subscript (← relationData t relationId) "services"

def getRelationType (t : StoredTopology) (relationId : String) : Except QueryError Data := do
  subscript (← relationData t relationId) "interface"

def getRelationScope (t : StoredTopology) (relationId : String) : Except QueryError Data := do
  subscript (← relationData t relationId) "scope"

/-- `relation_data.get("services")`, and what it has for a service, where it has something. -/
def serviceIn (data : Data) (serviceId : String) : Except QueryError (Option Data) :=
  match data with
  | .dict entries =>
    match entries.lookup "services" with
    | some (.dict services) => .ok (services.lookup serviceId)
    | some services => if truthy services then .error .typeError else .ok none
    | none => .ok none
  | _ => .error .typeError

/-- A relation as `get_relations_for_service` lists it. -/
structure ListedRelation where
  relationId : String
  interface : Data
  scope : Data
  service : Data

def listRelations (serviceId : String) :
    List (String × Data) → Except QueryError (List ListedRelation)
  | [] => .ok []
  | (relationId, data) :: relations => do
    match ← serviceIn data serviceId with
    | none => listRelations serviceId relations
    | some service =>
      let interface ← subscript data "interface"
      let scope ← subscript data "scope"
      return ⟨relationId, interface, scope, service⟩ :: (← listRelations serviceId relations)

def getRelationsForService (t : StoredTopology) (serviceId : String) :
    Except QueryError (List ListedRelation) := do
  let services ← dictAt t "services"
  if (services.lookup serviceId).isNone then throw (.serviceNotFound serviceId)
  listRelations serviceId (← dictAt t "relations")

/-- A relation of a topology of version 1. -/
structure RelationV1 where
  interface : String
  services : List (String × RelationService)

/-- A topology of version 1, by its relations and whatever else it has. -/
structure TopologyV1 where
  relations : Option (List (String × RelationV1))
  rest : List (String × Data)
  noRelations : rest.lookup "relations" = none

namespace TopologyV1

def serviceData (s : RelationService) : Data := .dict [("name", .text s.name), ("role", .text s.role)]

def servicesData (services : List (String × RelationService)) : Data :=
  .dict (services.map fun e => (e.1, serviceData e.2))

/-- `[interface, services]` -/
def relationV1 (r : RelationV1) : Data := .list [.text r.interface, servicesData r.services]

/-- What `add_relation` and `assign_service_to_relation` build. -/
def relationV2 (r : RelationV1) : Data :=
  .dict [("interface", .text r.interface), ("scope", .text "global"),
    ("services", servicesData r.services)]

def stored (version : Int) (relationOf : RelationV1 → Data) (t : TopologyV1) : StoredTopology :=
  ⟨some version, t.relations.elim t.rest fun relations =>
    ("relations", .dict (relations.map fun e => (e.1, relationOf e.2))) :: t.rest⟩

end TopologyV1

/-- A topology has the current version, answers what version 2 asks of relations as the other one
does, and is the same outside the relations. -/
structure AnswersAs (m t : StoredTopology) : Prop where
  version : m.getVersion = t.getVersion
  outside : ∀ key, key ≠ "relations" → m.entries.lookup key = t.entries.lookup key
  relations : ∀ relationId, (∃ ids, getRelations m = .ok ids ∧ relationId ∈ ids) ↔
    ∃ ids, getRelations t = .ok ids ∧ relationId ∈ ids
  services : ∀ relationId, getRelationServices m relationId = getRelationServices t relationId
  type : ∀ relationId, getRelationType m relationId = getRelationType t relationId
  scope : ∀ relationId, getRelationScope m relationId = getRelationScope t relationId
  forService : ∀ serviceId relation,
    (∃ listed, getRelationsForService m serviceId = .ok listed ∧ relation ∈ listed) ↔
      ∃ listed, getRelationsForService t serviceId = .ok listed ∧ relation ∈ listed

/-- No entry has a text for its interface. -/
def NoInterface (relations : List (String × Data)) : Prop :=
  ∀ e ∈ relations, ∀ s, subscript e.2 "interface" ≠ .ok (.text s)

theorem noInterface_assign (relations : List (String × Data)) (k : String) (v : Data)
    (h : NoInterface relations) (hv : ∀ s, subscript v "interface" ≠ .ok (.text s)) :
    NoInterface (Entries.assign k v relations) := by
  intro e he
  rcases (Entries.mem_assign _ _ _ e).mp he with rfl | ⟨hmem, -⟩
  · exact hv
  · exact h e hmem

theorem servicesData_noInterface (services : List (String × RelationService)) (s : String) :
    subscript (TopologyV1.servicesData services) "interface" ≠ .ok (.text s) := by
  intro h
  simp only [TopologyV1.servicesData, subscript] at h
  cases hlookup : (services.map fun e => (e.1, TopologyV1.serviceData e.2)).lookup "interface" with
  | none => simp [hlookup] at h
  | some data =>
    obtain ⟨e, -, he⟩ := List.mem_map.mp (Entries.mem_of_lookup _ _ _ hlookup)
    rw [hlookup, ← (Prod.mk.inj he).2] at h
    cases h

/-- A turn of the loop leaves an empty relation, and puts what it has read beside it. -/
theorem migrateRelation_noInterface (newRelations : List (String × Data)) (id : String)
    (r : RelationV1) (h : NoInterface newRelations) :
    ∃ relations, migrateRelation newRelations (id, TopologyV1.relationV1 r) = .ok relations ∧
      NoInterface relations := by
  refine ⟨_, rfl, ?_⟩
  refine noInterface_assign _ _ _ ?_ (servicesData_noInterface r.services)
  refine noInterface_assign _ _ _ ?_ fun s hs => by cases hs
  refine noInterface_assign _ _ _ ?_ fun s hs => by cases hs
  exact noInterface_assign _ _ _ h fun s hs => by cases hs

theorem migrateRelations_noInterface (relations : List (String × RelationV1))
    (newRelations : List (String × Data)) (h : NoInterface newRelations) :
    ∃ migrated, (relations.map fun e => (e.1, TopologyV1.relationV1 e.2)).foldlM migrateRelation
        newRelations = .ok migrated ∧ NoInterface migrated := by
  induction relations generalizing newRelations with
  | nil => exact ⟨newRelations, rfl, h⟩
  | cons e relations ih =>
    obtain ⟨next, hnext, hno⟩ := migrateRelation_noInterface newRelations e.1 e.2 h
    obtain ⟨migrated, hmigrated, hnone⟩ := ih next hno
    exact ⟨migrated, by rw [List.map_cons, List.foldlM_cons, hnext]; exact hmigrated, hnone⟩

theorem getRelationType_noInterface (m : StoredTopology) (relations : List (String × Data))
    (h : m.entries.lookup "relations" = some (.dict relations)) (hno : NoInterface relations)
    (id s : String) : getRelationType m id ≠ .ok (.text s) := by
  intro htype
  obtain ⟨data, hdata, hinterface⟩ := except_bind_ok _ _ _ htype
  have hlookup : relations.lookup id = some data := by
    simp only [relationData, dictAt, h] at hdata
    cases hid : relations.lookup id with
    | none => simp [hid, bind, Except.bind] at hdata
    | some found => simpa [hid, bind, Except.bind] using hdata
  exact hno _ (Entries.mem_of_lookup _ _ _ hlookup) s hinterface

theorem migrateVersion1_relations (t : TopologyV1) (relations : List (String × RelationV1))
    (h : t.relations = some relations) (hne : relations ≠ []) :
    migrateVersion1 (t.stored 1 TopologyV1.relationV1) =
      (relations.map fun e => (e.1, TopologyV1.relationV1 e.2)).foldlM migrateRelation [] >>=
        fun newRelations => .ok ⟨some 2, Entries.assign "relations" (.dict newRelations)
          (t.stored 1 TopologyV1.relationV1).entries⟩ := by
  have hlookup : (t.stored 1 TopologyV1.relationV1).entries.lookup "relations" =
      some (.dict (relations.map fun e => (e.1, TopologyV1.relationV1 e.2))) := by
    simp [TopologyV1.stored, h]
  have htruthy : truthy (.dict (relations.map fun e => (e.1, TopologyV1.relationV1 e.2))) = true := by
    simpa [truthy] using hne
  have hversion : (t.stored 1 TopologyV1.relationV1).getVersion = 1 := rfl
  rw [migrateVersion1, if_neg (by rw [hversion]; decide), if_neg (by simp [hversion]), hlookup]
  dsimp only
  rw [if_pos htruthy]

/-- Every relation is in the topology of version 2 as it was in that of version 1. -/
theorem stored_type (t : TopologyV1) (relations : List (String × RelationV1))
    (h : t.relations = some relations) (id : String) (r : RelationV1)
    (hr : relations.lookup id = some r) :
    getRelationType (t.stored 2 TopologyV1.relationV2) id = .ok (.text r.interface) := by
  have hlookup : (relations.map fun e => (e.1, TopologyV1.relationV2 e.2)).lookup id =
      some (TopologyV1.relationV2 r) := by
    rw [Entries.lookup_map relations id fun _ => TopologyV1.relationV2, hr, Option.map_some]
  have hdata : relationData (t.stored 2 TopologyV1.relationV2) id =
      .ok (TopologyV1.relationV2 r) := by
    simp [relationData, dictAt, TopologyV1.stored, h, hlookup, bind, Except.bind]
  rw [getRelationType, hdata]
  rfl

/-- A topology of version 1 is migrated to what it is in version 2 just where it has no relation. -/
theorem migration_answers_iff (t : TopologyV1) :
    (∃ m, migrateVersion1 (t.stored 1 TopologyV1.relationV1) = .ok m ∧
        AnswersAs m (t.stored 2 TopologyV1.relationV2)) ↔
      ∀ relations, t.relations = some relations → relations = [] := by
  constructor
  · rintro ⟨m, hm, hanswers⟩ relations hrelations
    cases relations with
    | nil => rfl
    | cons e relations =>
      have hempty : NoInterface [] := by
        intro x hx
        cases hx
      obtain ⟨migrated, hmigrated, hno⟩ := migrateRelations_noInterface (e :: relations) [] hempty
      have hrun := migrateVersion1_relations t (e :: relations) hrelations (List.cons_ne_nil _ _)
      rw [hmigrated] at hrun
      have htype := stored_type t (e :: relations) hrelations e.1 e.2
        (by rw [Entries.lookup_cons, if_pos rfl])
      rw [← hanswers.type, Except.ok.inj (hm.symm.trans hrun)] at htype
      refine absurd htype (getRelationType_noInterface _ migrated ?_ hno e.1 e.2.interface)
      rw [Entries.lookup_assign, if_pos rfl]
  · intro hnone
    refine ⟨t.stored 2 TopologyV1.relationV2, ?_, ?_⟩
    · cases hrelations : t.relations with
      | none =>
        simp [migrateVersion1, TopologyV1.stored, hrelations, getVersion, t.noRelations]
      | some relations =>
        rw [hnone relations hrelations] at hrelations
        simp [migrateVersion1, TopologyV1.stored, hrelations, getVersion, truthy]
    · constructor <;> intros <;> rfl

/-- One relation, between two services. -/
def topologyV1 : TopologyV1 where
  relations := some [("relation-0000000000", ⟨"mysql",
    [("service-0000000000", ⟨"db", "client"⟩), ("service-0000000001", ⟨"server", "server"⟩)]⟩)]
  rest := []
  noRelations := rfl

/-- The relation becomes empty, and its interface, scope and services become relations. -/
theorem relation_emptied :
    (∃ m, migrateVersion1 (topologyV1.stored 1 TopologyV1.relationV1) = .ok m ∧
        getRelations m = .ok ["services", "scope", "interface", "relation-0000000000"] ∧
        getRelationType m "relation-0000000000" = .error (.keyError "interface")) ∧
      ¬ ∃ m, migrateVersion1 (topologyV1.stored 1 TopologyV1.relationV1) = .ok m ∧
        AnswersAs m (topologyV1.stored 2 TopologyV1.relationV2) := by
  refine ⟨⟨_, rfl, rfl, rfl⟩, ?_⟩
  rw [migration_answers_iff]
  exact fun h => absurd (h _ rfl) (by simp)

end migration

end StoredTopology

end Juju.State
