import Juju.Lib.FileWrites
import Juju.Unit.CrashRecovery

namespace Juju.Unit
open Juju.Base
open Juju.Lib

/-- What a workflow is the workflow of. -/
inductive DomainState where
  | unit (internalId unitName : String)
  | unitRelation (internalUnitId internalRelationId : String)

/-- The node of the unit, and the key in its workflow data. -/
def zkWorkflowIdentity : DomainState → String × String
  | .unit internalId unitName => ("/units/" ++ internalId, unitName)
  | .unitRelation internalUnitId internalRelationId =>
    ("/units/" ++ internalUnitId, internalRelationId)

def fsWorkflowPaths (stateDirectory : String) : DomainState → String × String
  | .unit _ unitName =>
    let name := unitName.map fun c => if c = '/' then '-' else c
    (stateDirectory ++ "/" ++ name ++ "-" ++ "state.txt",
      stateDirectory ++ "/" ++ name ++ "-" ++ "history.txt")
  | .unitRelation internalUnitId internalRelationId =>
    (stateDirectory ++ "/" ++ internalUnitId ++ "-" ++ internalRelationId ++ "-" ++ "state.txt",
      stateDirectory ++ "/" ++ internalUnitId ++ "-" ++ internalRelationId ++ "-" ++ "history.txt")

/-- `yaml.safe_dump` and `yaml.load` for what a workflow stores. Loading is `none` where YAML
raises or the document is no such dictionary, and else the dictionary or None. -/
structure StateYaml (S T V : Type) where
  safeDump : StateDict S T V → String
  load : String → Option (Option (StateDict S T V))

/-- A row of one field, as `csv.writer` writes it. -/
def csvRow (field : String) : String :=
  (if field = "" ∨ field.toList.any (· ∈ [',', '"', '\r', '\n']) then
    "\"" ++ String.ofList (field.toList.flatMap fun c => if c = '"' then ['"', '"'] else [c]) ++ "\""
  else field) ++ "\r\n"

/-- The workflow data of the units in ZooKeeper, by their nodes and keys. -/
abbrev WorkflowNodes := Dict (String × String) String

section disk

variable {S T V : Type} (yaml : StateYaml S T V) (stateDirectory : String) (domain : DomainState)

/-- `DiskWorkflowState._store`. -/
def diskStore (stateDict : StateDict S T V) : List (Effect WorkflowNodes) :=
  let stateSerialized := yaml.safeDump stateDict
  let (stateFilePath, stateHistoryPath) := fsWorkflowPaths stateDirectory domain
  overwriteFile stateFilePath stateSerialized ++
    [.openAppend stateHistoryPath, .write stateHistoryPath (csvRow stateSerialized),
      .change fun nodes => nodes.insert (zkWorkflowIdentity domain) stateSerialized]

/-- `DiskWorkflowState._load`. Without a file the state is None. -/
def diskLoad (w : World WorkflowNodes) : Option (Option (StateDict S T V)) :=
  match w.files (fsWorkflowPaths stateDirectory domain).1 with
  | none => some (some ⟨none, ∅, none⟩)
  | some content => yaml.load content

/-- `yield self._load() or {}`, with the defaults that are set in it. -/
def loadedState (loaded : Option (StateDict S T V)) : StateDict S T V :=
  loaded.getD ⟨none, ∅, none⟩

theorem fsWorkflowPaths_ne :
    (fsWorkflowPaths stateDirectory domain).2 ≠ (fsWorkflowPaths stateDirectory domain).1 := by
  intro h
  have hlength := congrArg String.length h
  have hnames : "history.txt".length = 11 ∧ "state.txt".length = 9 := by decide
  cases domain <;> simp only [fsWorkflowPaths, String.length_append, hnames] at hlength <;> omega

/-- A later load gives the old state or the new one, whatever the process has left. -/
def StoresWhole (old new : StateDict S T V) (point : Nat) (w : World WorkflowNodes) : Prop :=
  ∀ w', Dies (diskStore yaml stateDirectory domain new) point w w' →
    diskLoad yaml stateDirectory domain w' = some (some old) ∨
      diskLoad yaml stateDirectory domain w' = some (some new)

theorem diskStore_spares (stateDict : StateDict S T V) :
    ∀ e ∈ (diskStore yaml stateDirectory domain stateDict).drop 2,
      e.Spares (fsWorkflowPaths stateDirectory domain).1 := by
  have hne := fsWorkflowPaths_ne stateDirectory domain
  intro e he
  simp only [diskStore, overwriteFile, List.cons_append, List.nil_append, List.drop_succ_cons,
    List.drop_zero, List.mem_cons, List.not_mem_nil, or_false] at he
  rcases he with rfl | rfl | rfl
  · exact hne
  · exact hne
  · trivial

/-- A process that dies before it has written anything leaves an empty file. -/
theorem diskStore_empties (stateDict : StateDict S T V) (w : World WorkflowNodes) :
    ∃ w', Dies (diskStore yaml stateDirectory domain stateDict) 1 w w' ∧
      diskLoad yaml stateDirectory domain w' = yaml.load "" := by
  have hdies := overwriteFile_part w (fsWorkflowPaths stateDirectory domain).1
    (yaml.safeDump stateDict) ((diskStore yaml stateDirectory domain stateDict).drop 2) ""
    (yaml.safeDump stateDict) (String.empty_append).symm
  refine ⟨_, hdies, ?_⟩
  rw [diskLoad, setFile_same]

/-- The state is stored as a whole unless the process dies while it writes the state file. -/
theorem store_whole_iff (old new : StateDict S T V)
    (hold : yaml.load (yaml.safeDump old) = some (some old))
    (hnew : yaml.load (yaml.safeDump new) = some (some new)) (hempty : yaml.load "" = some none)
    (w : World WorkflowNodes)
    (hw : w.files (fsWorkflowPaths stateDirectory domain).1 = some (yaml.safeDump old))
    (point : Nat) :
    StoresWhole yaml stateDirectory domain old new point w ↔ point ≠ 1 := by
  constructor
  · rintro hwhole rfl
    obtain ⟨w', hdies, hloaded⟩ := diskStore_empties yaml stateDirectory domain new w
    rw [hempty] at hloaded
    rcases hwhole w' hdies with h | h
    · rw [hloaded] at h
      cases h
    · rw [hloaded] at h
      cases h
  · intro hpoint w' hdies
    rcases overwriteFile_dies w w' _ _ _ (diskStore_spares yaml stateDirectory domain new) point
      hpoint hdies with h | h
    · left
      rw [diskLoad, h, hw]
      exact hold
    · right
      rw [diskLoad, h]
      exact hnew

end disk

/-- What the scheduler and the lifecycle keep of relations is stored as a whole: a later load reads
the old file or the new one. -/
def storeRelations (knownRelationsPath state : String) : List (Effect WorkflowNodes) :=
  replaceFile knownRelationsPath state

theorem storeRelations_whole (knownRelationsPath state : String) (w w' : World WorkflowNodes)
    (point : Nat) (h : Dies (storeRelations knownRelationsPath state) point w w') :
    w'.files knownRelationsPath = w.files knownRelationsPath ∨
      w'.files knownRelationsPath = some state :=
  replaceFile_dies w w' knownRelationsPath state point h

section stopping

def runningUnit : UnitDict := ⟨some .started, ∅, none⟩

def stoppingUnit : UnitDict := ⟨some .started, ∅, some .stop⟩

def runningText : String := "state: started\nstate_variables: {}\n"

def stoppingText : String := "state: started\nstate_variables: {}\ntransition_id: stop\n"

/-- YAML, as far as it goes here. -/
def startedYaml : StateYaml UnitState UnitTransition String where
  safeDump d := if d.transitionId = none then runningText else stoppingText
  load text :=
    if text = "" then some none
    else if text = runningText then some (some runningUnit)
    else if text = stoppingText then some (some stoppingUnit)
    else none

def mysqlUnit : DomainState := .unit "unit-0000000000" "mysql/0"

def runningWorld : World WorkflowNodes :=
  ⟨fun path => if path = (fsWorkflowPaths "state" mysqlUnit).1 then some runningText else none, ∅⟩

theorem runningWorld_file : runningWorld.files (fsWorkflowPaths "state" mysqlUnit).1 =
    some (startedYaml.safeDump runningUnit) :=
  if_pos rfl

theorem store_whole_iff_stop :
    StoresWhole startedYaml "state" mysqlUnit runningUnit stoppingUnit 3 runningWorld := by
  have hwhole := store_whole_iff startedYaml "state" mysqlUnit runningUnit stoppingUnit rfl rfl rfl
    runningWorld runningWorld_file 3
  exact hwhole.mpr (by decide)

/-- The process dies while it notes that the unit is about to stop. The next one finds no state and
installs the charm of a unit that was started. -/
theorem stopped_unit_installs :
    ∃ w', Dies (diskStore startedYaml "state" mysqlUnit stoppingUnit) 1 runningWorld w' ∧
      diskLoad startedYaml "state" mysqlUnit runningWorld = some (some runningUnit) ∧
      diskLoad startedYaml "state" mysqlUnit w' = some none ∧
      ∃ d ∈ (synchronizeUnit allWell (restarted (loadedState none))).1.history,
        d.transitionId = some .install := by
  obtain ⟨w', hdies, hloaded⟩ := diskStore_empties startedYaml "state" mysqlUnit stoppingUnit
    runningWorld
  refine ⟨w', hdies, ?_, hloaded, by decide⟩
  rw [diskLoad, runningWorld_file]
  rfl

end stopping

end Juju.Unit
