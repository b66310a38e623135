import Mathlib.Data.Set.Insert
import Mathlib.Logic.Function.Basic

namespace Juju.State

/-- Where a unit stands. -/
structure UnitPlace (I : Type) where
  service : I
  number : Nat
  container : Option I
  machine : Option I

/-- One end of a relation. -/
structure RelationEnd (N : Type) where
  name : N
  role : N

/-- What is deployed: the things there are, by their ids, and how they belong together. `I` are
the ids and `N` the names. -/
@[ext]
structure Deployment (I N : Type) where
  machines : Set I
  services : I → Option N
  units : I → Option (UnitPlace I)
  relations : I → Option (N × N)
  ends : I → I → Option (RelationEnd N)
  /-- The number that the next unit of a service of this name gets. -/
  next : N → Option Nat

def emptyDeployment {I N : Type} : Deployment I N :=
  ⟨∅, fun _ => none, fun _ => none, fun _ => none, fun _ _ => none, fun _ => none⟩

/-- A change of a deployment. -/
inductive DeploymentChange (I N : Type) where
  | addMachine (m : I)
  | removeMachine (m : I)
  | addService (s : I) (name : N)
  | removeService (s : I)
  | addUnit (s u : I) (container : Option I)
  | removeUnit (s u : I)
  | assign (s u m : I)
  | unassign (s u : I)
  | addRelation (r : I) (interface scope : N)
  | removeRelation (r : I)
  | join (r s : I) (e : RelationEnd N)
  | leave (r s : I)

namespace Deployment

variable {I N : Type}

section allowed

variable (container : N) (d : Deployment I N)

/-- A unit in which the service may have subordinates: the two services are related in the
scope of a container. -/
def Hosts (u s : I) : Prop :=
  ∃ placed r interface, d.units u = some placed ∧ d.relations r = some (interface, container) ∧
    d.ends r placed.service ≠ none ∧ d.ends r s ≠ none

/-- What a change asks for. -/
def Allowed : DeploymentChange I N → Prop
  | .addMachine m => m ∉ d.machines
  | .removeMachine m => m ∈ d.machines ∧ ∀ u p, d.units u = some p → p.machine ≠ some m
  | .addService s name => d.services s = none ∧ ∀ s', d.services s' ≠ some name
  | .removeService s => d.services s ≠ none ∧ ∀ r, d.ends r s = none
  | .addUnit s u c => d.services s ≠ none ∧ d.units u = none ∧ ∀ p ∈ c, d.Hosts container p s
  | .removeUnit s u => ∃ p, d.units u = some p ∧ p.service = s
  | .assign s u m => (∃ p, d.units u = some p ∧ p.service = s ∧ p.machine = none) ∧ m ∈ d.machines
  | .unassign s u => ∃ p, d.units u = some p ∧ p.service = s ∧ p.machine ≠ none
  | .addRelation r _ _ => d.relations r = none
  | .removeRelation r => d.relations r ≠ none
  | .join r s e => d.services s ≠ none ∧ d.relations r ≠ none ∧ d.ends r s = none ∧
      ∀ s' e', d.ends r s' = some e' → e'.role ≠ e.role
  | .leave r s => d.services s ≠ none ∧ d.ends r s ≠ none

end allowed

variable [DecidableEq I] [DecidableEq N]

/-- A machine is written for a unit. -/
def setMachine (d : Deployment I N) (u : I) (machine : Option I) : Deployment I N :=
  { d with
    units := Function.update d.units u ((d.units u).map fun p => { p with machine := machine }) }

/-- What a change that is allowed makes of a deployment. -/
def after (d : Deployment I N) : DeploymentChange I N → Deployment I N
  | .addMachine m => { d with machines := insert m d.machines }
  | .removeMachine m => { d with machines := d.machines \ {m} }
  | .addService s name =>
    { d with
      services := Function.update d.services s (some name)
      next := Function.update d.next name (some ((d.next name).getD 0)) }
  | .removeService s =>
    { d with
      services := Function.update d.services s none
      units := fun u => (d.units u).filter fun p => p.service ≠ s }
  | .addUnit s u c =>
    match d.services s with
    | none => d
    | some name =>
      { d with
        units := Function.update d.units u (some ⟨s, (d.next name).getD 0, c, none⟩)
        next := Function.update d.next name (some ((d.next name).getD 0 + 1)) }
  | .removeUnit _ u => { d with units := Function.update d.units u none }
  | .assign _ u m => d.setMachine u (some m)
  | .unassign _ u => d.setMachine u none
  | .addRelation r interface scope =>
    { d with relations := Function.update d.relations r (some (interface, scope)) }
  | .removeRelation r =>
    { d with
      relations := Function.update d.relations r none
      ends := Function.update d.ends r fun _ => none }
  | .join r s e =>
    { d with ends := Function.update d.ends r (Function.update (d.ends r) s (some e)) }
  | .leave r s =>
    { d with ends := Function.update d.ends r (Function.update (d.ends r) s none) }

open Classical in
/-- A change that is not allowed is refused. -/
noncomputable def change (container : N) (d : Deployment I N) (c : DeploymentChange I N) :
    Deployment I N :=
  if d.Allowed container c then d.after c else d

theorem change_allowed (container : N) (d : Deployment I N) (c : DeploymentChange I N)
    (h : d.Allowed container c) : d.change container c = d.after c := if_pos h

theorem change_refused (container : N) (d : Deployment I N) (c : DeploymentChange I N)
    (h : ¬ d.Allowed container c) : d.change container c = d := if_neg h

end Deployment

end Juju.State
