import Juju.Lib.Text
import Juju.State.UnitLookups
import Juju.State.UnitNames

namespace Juju.State
open Juju.Base
open Juju.Lib

/-- No unit has a negative sequence, so that a search for one finds none. -/
def findServiceUnitWithInteger (serviceId : String) : Int → TopologyM (Option String)
  | .ofNat sequence => findServiceUnitWithSequence serviceId sequence
  | .negSucc _ => do
    assertService serviceId
    pure none

inductive UnitNameError where
  | valueError
  | topology (e : TopologyError)
  deriving DecidableEq

namespace InternalTopology

/-- The name of a unit as it is written. -/
def getServiceUnitNameFromId (unitId : String) : TopologyM String := do
  let serviceId ← getServiceUnitService unitId
  getServiceUnitName serviceId unitId

variable (t : InternalTopology) (k : TextKind)

/-- The lookup of a name as it is written. -/
def getServiceUnitIdFromName (unitName : String) : Except UnitNameError (Option String) :=
  match unitName.toList.splitOn '/' with
  | [serviceName, unitSequenceId] =>
    match k.int unitSequenceId with
    | none => .error .valueError
    | some sequence =>
      match t.findServiceWithName (String.ofList serviceName) with
      | none => .error (.topology (.serviceNotFound "None"))
      | some serviceId =>
        match findServiceUnitWithInteger serviceId sequence t with
        | .ok unitId _ => .ok unitId
        | .error e _ => .error (.topology e)
  | _ => .error .valueError

end InternalTopology

/-- A name is split where its only slash is. -/
theorem splitOn_unitName (serviceName : String) (sequence : Nat) (h : '/' ∉ serviceName.toList) :
    (unitName serviceName sequence).toList.splitOn '/' =
      [serviceName.toList, Nat.toDigits 10 sequence] := by
  have hdigits : '/' ∉ Nat.toDigits 10 sequence := by
    intro hin
    have hdigit := TextKind.toDigits_isDigit sequence '/' hin
    simp at hdigit
  apply (splitOn_eq_iff _ _ _ (by simp)).mpr
  constructor
  · simp [unitName, Nat.toString_eq_repr, Nat.toList_repr, List.intercalate]
  · simpa using ⟨h, hdigits⟩

theorem findServiceWithName_name (t : InternalTopology) (serviceName serviceId : String)
    (hf : t.findServiceWithName serviceName = some serviceId) :
    ∃ service, t.services.lookup serviceId = some service ∧ service.name = serviceName := by
  obtain ⟨e, he, rfl⟩ := Option.map_eq_some_iff.mp hf
  have hlookup := (Dict.mem_entries_iff _ _).mp (List.mem_of_find?_eq_some he)
  exact ⟨e.2, hlookup, by simpa using List.find?_some he⟩

/-- The search by sequence returns a unit of the service that has it. -/
theorem findServiceUnitWithInteger_found (t t' : InternalTopology) (serviceId unitId : String)
    (service : Service) (hs : t.services.lookup serviceId = some service) (sequence : Int)
    (hrun : findServiceUnitWithInteger serviceId sequence t = .ok (some unitId) t') :
    ∃ unit n, service.units.lookup unitId = some unit ∧ unit.sequence = some n ∧
      sequence = (n : Int) := by
  have hin : serviceId ∈ t.services := (Dict.mem_iff_lookup _ _).mpr ⟨service, hs⟩
  cases sequence with
  | negSucc n => simp [findServiceUnitWithInteger, hin] at hrun
  | ofNat n =>
    simp only [findServiceUnitWithInteger, findServiceUnitWithSequence, assertService_bind,
      if_pos hin, get_bind, hs, pure_run, EStateM.Result.ok.injEq] at hrun
    obtain ⟨e, he, rfl⟩ := Option.map_eq_some_iff.mp hrun.1
    have hlookup := (Dict.mem_entries_iff _ _).mp (List.mem_of_find?_eq_some he)
    exact ⟨e.2, n, hlookup, by simpa using List.find?_some he, rfl⟩

section lookups

variable {t : InternalTopology} (h : Integrity t)
include h

theorem getServiceUnitName_unit (serviceId unitId : String) (service : Service)
    (unit : ServiceUnit) (hs : t.services.lookup serviceId = some service)
    (hu : service.units.lookup unitId = some unit) :
    ∃ sequence, unit.sequence = some sequence ∧
      getServiceUnitName serviceId unitId t = .ok (unitName service.name sequence) t := by
  have hunit : t.serviceUnit? serviceId unitId = some unit := by
    rw [serviceUnit?_lookup t serviceId unitId service hs, hu]
  obtain ⟨sequence, -, hsequence, -⟩ := h.sequenceBelow serviceId service unitId unit hs hunit
  have hin : serviceId ∈ t.services := (Dict.mem_iff_lookup _ _).mpr ⟨service, hs⟩
  exact ⟨sequence, hsequence, by simp [getServiceUnitName, hin, hunit, hs, hsequence]⟩

theorem getServiceUnitIdFromName_unitName (k : TextKind) (serviceId unitId : String)
    (service : Service) (unit : ServiceUnit) (sequence : Nat)
    (hs : t.services.lookup serviceId = some service)
    (hu : service.units.lookup unitId = some unit) (hn : unit.sequence = some sequence)
    (hslash : '/' ∉ service.name.toList) :
    t.getServiceUnitIdFromName k (unitName service.name sequence) = .ok (some unitId) := by
  have hname := findServiceWithName_service h serviceId service hs
  have hfound := getServiceUnitIdFromName_unit h serviceId unitId service unit sequence hs hu hn
  simp only [read, Juju.State.getServiceUnitIdFromName, get_bind, hname] at hfound
  simp only [InternalTopology.getServiceUnitIdFromName, splitOn_unitName _ _ hslash,
    k.int_toDigits, String.ofList_toList, hname, findServiceUnitWithInteger]
  cases hrun : findServiceUnitWithSequence serviceId sequence t with
  | ok found t' =>
    rw [hrun] at hfound
    simpa using hfound
  | error e t' =>
    rw [hrun] at hfound
    cases hfound

end lookups

/-- A unit that a name is looked up to is the one that the two parts of the name describe. -/
theorem getServiceUnitIdFromName_found (t : InternalTopology) (k : TextKind)
    (name unitId : String) (hrun : t.getServiceUnitIdFromName k name = .ok (some unitId)) :
    ∃ serviceId service part unit sequence, t.services.lookup serviceId = some service ∧
      name = service.name ++ "/" ++ String.ofList part ∧ '/' ∉ part ∧
      service.units.lookup unitId = some unit ∧ unit.sequence = some sequence ∧
      k.int part = some (sequence : Int) := by
  rw [InternalTopology.getServiceUnitIdFromName] at hrun
  split at hrun
  · rename_i serviceName part hsplit
    obtain ⟨hjoin, hparts⟩ := (splitOn_eq_iff _ _ _ (by simp)).mp hsplit
    split at hrun
    · cases hrun
    · rename_i sequence hint
      split at hrun
      · cases hrun
      · rename_i serviceId hf
        obtain ⟨service, hs, hname⟩ := findServiceWithName_name t _ serviceId hf
        split at hrun
        · rename_i found t' hfound
          obtain rfl : found = some unitId := by simpa using hrun
          obtain ⟨unit, n, hu, hn, rfl⟩ :=
            findServiceUnitWithInteger_found t t' serviceId unitId service hs sequence hfound
          refine ⟨serviceId, service, part, unit, n, hs, ?_, hparts part (by simp), hu, hn, hint⟩
          apply String.toList_injective
          simpa [hname, List.intercalate] using hjoin
        · cases hrun
  · cases hrun

/-- In a topology that calls lead to, looking up the name of a unit gives back the unit. -/
theorem unit_name_inverse (k : TextKind) (calls : List TopologyCall) (t : InternalTopology)
    (ht : calls.foldl call freshTopology = t)
    (hnames : ∀ serviceId service, t.services.lookup serviceId = some service →
      '/' ∉ service.name.toList) :
    (∀ serviceId service unitId, t.services.lookup serviceId = some service →
      unitId ∈ service.units →
      ∃ name, getServiceUnitName serviceId unitId t = .ok name t ∧
        InternalTopology.getServiceUnitNameFromId unitId t = .ok name t ∧
        t.getServiceUnitIdFromName k name = .ok (some unitId)) ∧
    ∀ name unitId, t.getServiceUnitIdFromName k name = .ok (some unitId) →
      ∃ serviceId service part unit sequence, t.services.lookup serviceId = some service ∧
        name = service.name ++ "/" ++ String.ofList part ∧ '/' ∉ part ∧
        service.units.lookup unitId = some unit ∧ unit.sequence = some sequence ∧
        k.int part = some (sequence : Int) := by
  have h : Integrity t := ht ▸ reachable_integrity calls
  constructor
  · intro serviceId service unitId hs hin
    obtain ⟨unit, hu⟩ := (Dict.mem_iff_lookup _ _).mp hin
    obtain ⟨sequence, hn, hname⟩ := getServiceUnitName_unit h serviceId unitId service unit hs hu
    have hservice := getServiceUnitService_unit h serviceId unitId service unit hs hu
    refine ⟨unitName service.name sequence, hname, ?_, ?_⟩
    · rw [InternalTopology.getServiceUnitNameFromId, bind_of_ok _ _ _ _ _ hservice, hname]
    · exact getServiceUnitIdFromName_unitName h k serviceId unitId service unit sequence hs hu hn
        (hnames serviceId service hs)
  · exact getServiceUnitIdFromName_found t k

/-- A topology with one unit of one service. -/
def wordpressCalls : List TopologyCall :=
  [.addService "service-0" "wordpress", .addServiceUnit "service-0" "unit-0" none]

theorem unit_name_inverse_wordpress :
    (wordpressCalls.foldl call freshTopology).getServiceUnitIdFromName .unicode "wordpress/0" =
        .ok (some "unit-0") ∧
      ∃ serviceId service part unit sequence,
        (wordpressCalls.foldl call freshTopology).services.lookup serviceId = some service ∧
        "wordpress/0" = service.name ++ "/" ++ String.ofList part ∧ '/' ∉ part ∧
        service.units.lookup "unit-0" = some unit ∧ unit.sequence = some sequence ∧
        TextKind.unicode.int part = some (sequence : Int) := by
  have hfound : (wordpressCalls.foldl call freshTopology).getServiceUnitIdFromName .unicode
      "wordpress/0" = .ok (some "unit-0") := by decide
  have hall : (wordpressCalls.foldl call freshTopology).services.entries.all
      (fun e => '/' ∉ e.2.name.toList) = true := by decide
  have hnames : ∀ serviceId service,
      (wordpressCalls.foldl call freshTopology).services.lookup serviceId = some service →
        '/' ∉ service.name.toList := by
    intro serviceId service hs
    have hin := List.all_eq_true.mp hall ⟨serviceId, service⟩ ((Dict.mem_entries_iff _ _).mpr hs)
    simpa using hin
  have hboth := unit_name_inverse .unicode wordpressCalls _ rfl hnames
  exact ⟨hfound, hboth.2 "wordpress/0" "unit-0" hfound⟩

end Juju.State
