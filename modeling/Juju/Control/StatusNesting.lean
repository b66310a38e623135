import Juju.Control.StatusGather

namespace Juju.Control
open Juju.Base
open Juju.Lib
open Juju.State

/-- The name of the container that is noted for a unit. -/
def StatusCommand.parent (s : StatusCommand) (name : String) : Option String :=
  (s.unitData.lookup name).bind UnitInfo.container

/-- There is an entry to put the unit under. -/
def Placeable (k : TextKind) (s : StatusCommand) (name : String) : Prop :=
  match s.parent name with
  | some container => container ∈ s.unitData
  | none => ∃ service n, parseUnitName k name = some (service, n) ∧ service ∈ s.serviceData

/-- What putting the units `done` in their places has made of `s₀`. -/
structure Nested (k : TextKind) (s₀ : StatusCommand) (done : List String) (s : StatusCommand) :
    Prop where
  names : ∀ name, name ∈ s.unitData ↔ name ∈ s₀.unitData
  container : ∀ name, name ∉ done → s.parent name = s₀.parent name
  nested : ∀ name x, s.unitData.lookup name = some x →
    ∀ m, m ∈ x.subordinates ↔ m ∈ done ∧ s₀.parent m = some name
  services : ∀ name, name ∈ s.serviceData ↔ name ∈ s₀.serviceData
  listed : ∀ name info, s.serviceData.lookup name = some info → ∃ units, info.units = some units ∧
    ∀ m, m ∈ units ↔ m ∈ done ∧ s₀.parent m = none ∧ ∃ n, parseUnitName k m = some (name, n)
  subordinates : s.subordinates = s₀.subordinates

section step

variable {k : TextKind} {s₀ s : StatusCommand} {done : List String}

theorem placeable_child (name container : String) (hparent : s₀.parent name = some container) :
    Placeable k s₀ name ↔ container ∈ s₀.unitData := by
  rw [Placeable, hparent]

theorem placeable_root (name : String) (hparent : s₀.parent name = none) :
    Placeable k s₀ name ↔
      ∃ service n, parseUnitName k name = some (service, n) ∧ service ∈ s₀.serviceData := by
  rw [Placeable, hparent]

/-- A unit with a container is put under it and loses its own note of it. -/
theorem nestUnit_child (name container : String) (hs : Nested k s₀ done s)
    (hnew : name ∉ done) (hin : name ∈ s₀.unitData) (hparent : s₀.parent name = some container)
    (s' : StatusCommand) (hrun : nestUnit k name s = .ok s') :
    container ∈ s₀.unitData ∧ Nested k s₀ (name :: done) s' := by
  have hcontainer : s.parent name = some container := (hs.container name hnew).trans hparent
  simp only [nestUnit, except_bind_eq_ok, unitInfo_ok] at hrun
  obtain ⟨u, hu, hrun⟩ := hrun
  have hnote : u.container = some container := by
    rwa [StatusCommand.parent, hu] at hcontainer
  simp only [hnote, except_bind_eq_ok, unitInfo_ok] at hrun
  obtain ⟨d, hd, u', hu', hrun⟩ := hrun
  cases hrun
  have hpresent : container ∈ s₀.unitData :=
    (hs.names container).mp ((Dict.mem_iff_lookup _ _).mpr ⟨d, hd⟩)
  refine ⟨hpresent, fun m => ?_, fun m hm => ?_, fun m x hx q => ?_, hs.services, ?_, hs.subordinates⟩
  · simp only [StatusCommand.setUnit, AList.mem_insert, hs.names]
    constructor
    · rintro (rfl | rfl | hm)
      · exact hin
      · exact hpresent
      · exact hm
    · exact fun hm => Or.inr (Or.inr hm)
  · rw [List.mem_cons, not_or] at hm
    rw [← hs.container m hm.2]
    simp only [StatusCommand.parent, StatusCommand.setUnit, Dict.lookup_insert, if_neg hm.1]
    split
    · rename_i hsame
      rw [hsame, hd]
      rfl
    · rfl
  · have hold := hs.nested
    simp only [StatusCommand.setUnit, Dict.lookup_insert] at hx hu'
    rw [List.mem_cons]
    by_cases hc : m = container
    · -- the container's own entry, which may be the unit's
      have hsub : x.subordinates = d.subordinates.insert name := by
        rw [if_pos hc] at hx
        split at hx
        · rename_i hm
          rw [if_pos (hm.symm.trans hc)] at hu'
          cases hu'
          cases hx
          rfl
        · cases hx
          rfl
      rw [hsub, List.mem_insert_iff, hold container d hd q, hc]
      constructor
      · rintro (rfl | ⟨hq, hp⟩)
        · exact ⟨Or.inl rfl, hparent⟩
        · exact ⟨Or.inr hq, hp⟩
      · rintro ⟨rfl | hq, hp⟩
        · exact Or.inl rfl
        · exact Or.inr ⟨hq, hp⟩
    · have hsub : ∃ x₀, s.unitData.lookup m = some x₀ ∧ x.subordinates = x₀.subordinates := by
        rw [if_neg hc] at hx
        split at hx
        · rename_i hm
          rw [if_neg (hm ▸ hc)] at hu'
          cases hx
          exact ⟨u', hm ▸ hu', rfl⟩
        · exact ⟨x, hx, rfl⟩
      obtain ⟨x₀, hx₀, hsub⟩ := hsub
      rw [hsub, hold m x₀ hx₀ q]
      constructor
      · rintro ⟨hq, hp⟩
        exact ⟨Or.inr hq, hp⟩
      · rintro ⟨rfl | hq, hp⟩
        · rw [hparent] at hp
          exact absurd (Option.some.inj hp).symm hc
        · exact ⟨hq, hp⟩
  · intro m info hinfo
    obtain ⟨units, hunits, hmem⟩ := hs.listed m info hinfo
    refine ⟨units, hunits, fun q => ?_⟩
    rw [hmem, List.mem_cons]
    constructor
    · rintro ⟨hq, hrest⟩
      exact ⟨Or.inr hq, hrest⟩
    · rintro ⟨rfl | hq, hp, hrest⟩
      · rw [hparent] at hp
        cases hp
      · exact ⟨hq, hp, hrest⟩

/-- A unit without a container is put under the service in its name. -/
theorem nestUnit_root (name : String) (hs : Nested k s₀ done s) (hnew : name ∉ done)
    (hparent : s₀.parent name = none) (s' : StatusCommand) (hrun : nestUnit k name s = .ok s') :
    (∃ service n, parseUnitName k name = some (service, n) ∧ service ∈ s₀.serviceData) ∧
      Nested k s₀ (name :: done) s' := by
  have hcontainer : s.parent name = none := (hs.container name hnew).trans hparent
  simp only [nestUnit, except_bind_eq_ok, unitInfo_ok] at hrun
  obtain ⟨u, hu, hrun⟩ := hrun
  have hnote : u.container = none := by
    rwa [StatusCommand.parent, hu] at hcontainer
  rw [hnote] at hrun
  dsimp only at hrun
  split at hrun
  · cases hrun
  rename_i service n hparse
  simp only [except_bind_eq_ok, serviceInfo_ok] at hrun
  obtain ⟨info, hinfo, hrun⟩ := hrun
  obtain ⟨units, hunits, hmem⟩ := hs.listed service info hinfo
  rw [hunits] at hrun
  cases hrun
  have hservice : service ∈ s₀.serviceData :=
    (hs.services service).mp ((Dict.mem_iff_lookup _ _).mpr ⟨info, hinfo⟩)
  refine ⟨⟨service, n, hparse, hservice⟩, hs.names, fun m hm => ?_, fun m x hx q => ?_, fun m => ?_,
    fun m info' hinfo' => ?_, hs.subordinates⟩
  · exact hs.container m fun hdone => hm (List.mem_cons_of_mem _ hdone)
  · rw [hs.nested m x hx q, List.mem_cons]
    constructor
    · rintro ⟨hq, hp⟩
      exact ⟨Or.inr hq, hp⟩
    · rintro ⟨rfl | hq, hp⟩
      · rw [hparent] at hp
        cases hp
      · exact ⟨hq, hp⟩
  · simp only [StatusCommand.setService, AList.mem_insert, hs.services]
    constructor
    · rintro (rfl | hm)
      · exact hservice
      · exact hm
    · exact Or.inr
  · simp only [StatusCommand.setService, Dict.lookup_insert] at hinfo'
    split at hinfo'
    · rename_i hm
      cases hinfo'
      refine ⟨_, rfl, fun q => ?_⟩
      rw [List.mem_insert_iff, hmem, List.mem_cons, hm]
      constructor
      · rintro (rfl | ⟨hq, hrest⟩)
        · exact ⟨Or.inl rfl, hparent, n, hparse⟩
        · exact ⟨Or.inr hq, hrest⟩
      · rintro ⟨rfl | hq, hrest⟩
        · exact Or.inl rfl
        · exact Or.inr ⟨hq, hrest⟩
    · rename_i hm
      obtain ⟨units', hunits', hmem'⟩ := hs.listed m info' hinfo'
      refine ⟨units', hunits', fun q => ?_⟩
      rw [hmem', List.mem_cons]
      constructor
      · rintro ⟨hq, hrest⟩
        exact ⟨Or.inr hq, hrest⟩
      · rintro ⟨rfl | hq, hp, n', hparse'⟩
        · rw [hparse] at hparse'
          exact absurd (congrArg Prod.fst (Option.some.inj hparse')).symm hm
        · exact ⟨hq, hp, n', hparse'⟩

theorem nestUnit_nested (name : String) (hs : Nested k s₀ done s) (hnew : name ∉ done)
    (hin : name ∈ s₀.unitData) (s' : StatusCommand) (hrun : nestUnit k name s = .ok s') :
    Placeable k s₀ name ∧ Nested k s₀ (name :: done) s' := by
  cases hparent : s₀.parent name with
  | some container =>
    obtain ⟨hpresent, hs'⟩ := nestUnit_child name container hs hnew hin hparent s' hrun
    exact ⟨(placeable_child name container hparent).mpr hpresent, hs'⟩
  | none =>
    obtain ⟨hservice, hs'⟩ := nestUnit_root name hs hnew hparent s' hrun
    exact ⟨(placeable_root name hparent).mpr hservice, hs'⟩

theorem nestUnit_ok (name : String) (hs : Nested k s₀ done s) (hnew : name ∉ done)
    (hin : name ∈ s₀.unitData) (hplace : Placeable k s₀ name) :
    ∃ s', nestUnit k name s = .ok s' := by
  obtain ⟨u, hu⟩ := (Dict.mem_iff_lookup _ _).mp ((hs.names name).mpr hin)
  have hnote : u.container = s₀.parent name := by
    rw [← hs.container name hnew, StatusCommand.parent, hu]
    rfl
  simp only [nestUnit, (unitInfo_ok _ _ _).mpr hu, bind, Except.bind, hnote]
  cases hparent : s₀.parent name with
  | some container =>
    have hpresent := (placeable_child name container hparent).mp hplace
    obtain ⟨d, hd⟩ := (Dict.mem_iff_lookup _ _).mp ((hs.names container).mpr hpresent)
    have hunit : ∃ u', (s.setUnit container
        { d with subordinates := d.subordinates.insert name }).unitData.lookup name = some u' := by
      rw [← Dict.mem_iff_lookup]
      exact (AList.mem_insert _).mpr (Or.inr ((hs.names name).mpr hin))
    obtain ⟨u', hu'⟩ := hunit
    simp only [(unitInfo_ok _ _ _).mpr hd, (unitInfo_ok _ _ _).mpr hu']
    exact ⟨_, rfl⟩
  | none =>
    obtain ⟨service, n, hparse, hservice⟩ := (placeable_root name hparent).mp hplace
    obtain ⟨info, hinfo⟩ := (Dict.mem_iff_lookup _ _).mp ((hs.services service).mpr hservice)
    obtain ⟨units, hunits, -⟩ := hs.listed service info hinfo
    simp only [hparse, (serviceInfo_ok _ _ _).mpr hinfo, hunits]
    exact ⟨_, rfl⟩

/-- The units named are put in their places just when each has one. -/
theorem nestUnits_nested (names : List String) (hapart : (names.reverse ++ done).Nodup)
    (hin : ∀ name ∈ names, name ∈ s₀.unitData) (hs : Nested k s₀ done s) (s' : StatusCommand)
    (hrun : nestUnits k names s = .ok s') :
    (∀ name ∈ names, Placeable k s₀ name) ∧ Nested k s₀ (names.reverse ++ done) s' := by
  induction names generalizing done s with
  | nil =>
    cases hrun
    exact ⟨by simp, hs⟩
  | cons name names ih =>
    rw [List.reverse_cons, List.append_assoc, List.singleton_append] at hapart ⊢
    have hnew : name ∉ done := (List.nodup_cons.mp (List.nodup_append.mp hapart).2.1).1
    simp only [nestUnits, except_bind_eq_ok] at hrun
    obtain ⟨s₁, hunit, hrun⟩ := hrun
    obtain ⟨hplace, hs₁⟩ := nestUnit_nested name hs hnew (hin name List.mem_cons_self) s₁ hunit
    obtain ⟨hplaces, hs'⟩ := ih hapart (fun m hm => hin m (List.mem_cons_of_mem _ hm)) hs₁ hrun
    exact ⟨List.forall_mem_cons.mpr ⟨hplace, hplaces⟩, hs'⟩

theorem nestUnits_ok (names : List String) (hapart : (names.reverse ++ done).Nodup)
    (hin : ∀ name ∈ names, name ∈ s₀.unitData) (hs : Nested k s₀ done s)
    (hplaces : ∀ name ∈ names, Placeable k s₀ name) : ∃ s', nestUnits k names s = .ok s' := by
  induction names generalizing done s with
  | nil => exact ⟨s, rfl⟩
  | cons name names ih =>
    rw [List.reverse_cons, List.append_assoc, List.singleton_append] at hapart
    have hnew : name ∉ done := (List.nodup_cons.mp (List.nodup_append.mp hapart).2.1).1
    have hname := hin name List.mem_cons_self
    obtain ⟨s₁, hunit⟩ := nestUnit_ok name hs hnew hname (hplaces name List.mem_cons_self)
    obtain ⟨-, hs₁⟩ := nestUnit_nested name hs hnew hname s₁ hunit
    obtain ⟨s', hrun⟩ := ih hapart (fun m hm => hin m (List.mem_cons_of_mem _ hm)) hs₁
      fun m hm => hplaces m (List.mem_cons_of_mem _ hm)
    exact ⟨s', by simp only [nestUnits, hunit, bind, Except.bind, hrun]⟩

end step

/-- The services named lose their units; the others keep all they have. -/
theorem nameServices_named (entries : List (String × List String)) (s s' : StatusCommand)
    (hrun : nameServices entries s = .ok s') :
    s'.unitData = s.unitData ∧
      (∀ name ∈ entries.map Prod.fst, ∀ info, s'.serviceData.lookup name = some info →
        info.units = none) ∧
      ∀ name ∉ entries.map Prod.fst, s'.serviceData.lookup name = s.serviceData.lookup name := by
  induction entries generalizing s with
  | nil =>
    cases hrun
    exact ⟨rfl, by simp, fun _ _ => rfl⟩
  | cons e entries ih =>
    simp only [nameServices, except_bind_eq_ok, serviceInfo_ok] at hrun
    obtain ⟨info, hinfo, hrun⟩ := hrun
    obtain ⟨hunits, hnamed, hothers⟩ := ih _ hrun
    refine ⟨hunits, fun name hname info' hinfo' => ?_, fun name hname => ?_⟩
    · by_cases hrest : name ∈ entries.map Prod.fst
      · exact hnamed name hrest info' hinfo'
      · rw [hothers name hrest] at hinfo'
        have hsame : name = e.1 := by
          rw [List.map_cons, List.mem_cons] at hname
          exact hname.resolve_right hrest
        simp only [StatusCommand.setService, Dict.lookup_insert, if_pos hsame] at hinfo'
        cases hinfo'
        rfl
    · rw [List.map_cons, List.mem_cons, not_or] at hname
      rw [hothers name hname.2]
      simp only [StatusCommand.setService, Dict.lookup_insert, if_neg hname.1]

theorem nameServices_ok (entries : List (String × List String)) (s : StatusCommand)
    (hin : ∀ e ∈ entries, e.1 ∈ s.serviceData) : ∃ s', nameServices entries s = .ok s' := by
  induction entries generalizing s with
  | nil => exact ⟨s, rfl⟩
  | cons e entries ih =>
    obtain ⟨info, hinfo⟩ := (Dict.mem_iff_lookup _ _).mp (hin e List.mem_cons_self)
    simp only [nameServices, (serviceInfo_ok _ _ _).mpr hinfo, bind, Except.bind]
    exact ih _ fun e' he' => (AList.mem_insert _).mpr (Or.inr (hin e' (List.mem_cons_of_mem _ he')))

/-- Before the pass, no unit stands anywhere. -/
theorem gathered_nested (k : TextKind) (t : InternalTopology) (H : ServiceUnitState → Prop)
    (s : StatusCommand) (hs : Gathered t H s) : Nested k s [] s := by
  refine ⟨fun _ => Iff.rfl, fun _ _ => rfl, fun name x hx m => ?_, fun _ => Iff.rfl,
    fun name info hinfo => ⟨[], hs.empty name info hinfo, by simp⟩, rfl⟩
  obtain ⟨-, -, -, -, -, -, hnone⟩ := hs.units name x hx
  simp [hnone]

/-- Where the units stand after the second pass. -/
structure Arranged (k : TextKind) (s s' : StatusCommand) : Prop where
  names : ∀ name, name ∈ s'.unitData ↔ name ∈ s.unitData
  nested : ∀ name x, s'.unitData.lookup name = some x →
    ∀ m, m ∈ x.subordinates ↔ m ∈ s.unitData ∧ s.parent m = some name
  listed : ∀ name m, (∃ info units, s'.serviceData.lookup name = some info ∧
      info.units = some units ∧ m ∈ units) ↔
    name ∈ s.serviceData ∧ name ∉ s.subordinates ∧ m ∈ s.unitData ∧ s.parent m = none ∧
      ∃ n, parseUnitName k m = some (name, n)

theorem keys_apart {V : Type} (d : Dict String V) : (d.keys.reverse ++ []).Nodup := by
  have hapart : d.keys.Nodup := d.nodupKeys
  simpa using hapart

theorem mem_entry_names {V : Type} (d : Dict String V) (name : String) :
    name ∈ (d.entries.map fun e => (e.1, e.2)).map Prod.fst ↔ name ∈ d := by
  rw [List.map_map]
  exact AList.mem_keys

section pass

variable (k : TextKind) (t : InternalTopology) (H : ServiceUnitState → Prop) (s : StatusCommand)
  (hs : Gathered t H s)
include hs

theorem processSubordinates_arranged (s' : StatusCommand)
    (hrun : processSubordinates k s = .ok s') :
    (∀ name ∈ s.unitData, Placeable k s name) ∧ Arranged k s s' := by
  simp only [processSubordinates, except_bind_eq_ok] at hrun
  obtain ⟨s₁, hnest, hname⟩ := hrun
  have hkeys := keys_apart s.unitData
  obtain ⟨hplaces, hs₁⟩ := nestUnits_nested s.unitData.keys hkeys
    (fun name hin => AList.mem_keys.mp hin) (gathered_nested k t H s hs) s₁ hnest
  obtain ⟨hunits, hnamed, hothers⟩ := nameServices_named _ s₁ s' hname
  have hdone (m : String) : m ∈ s.unitData.keys.reverse ++ [] ↔ m ∈ s.unitData := by
    simp [AList.mem_keys]
  have hsub (name : String) : name ∈ (s₁.subordinates.entries.map fun e => (e.1, e.2)).map
      Prod.fst ↔ name ∈ s.subordinates := by
    rw [hs₁.subordinates, mem_entry_names]
  refine ⟨fun name hin => hplaces name (AList.mem_keys.mpr hin), fun name => ?_,
    fun name x hx m => ?_, fun name m => ?_⟩
  · rw [hunits, hs₁.names]
  · rw [hunits] at hx
    rw [hs₁.nested name x hx m, hdone]
  · by_cases hin : name ∈ s.subordinates
    · constructor
      · rintro ⟨info, units, hinfo, hsome, -⟩
        rw [hnamed name ((hsub name).mpr hin) info hinfo] at hsome
        cases hsome
      · rintro ⟨-, hnot, -⟩
        exact absurd hin hnot
    · rw [hothers name fun hmem => hin ((hsub name).mp hmem)]
      constructor
      · rintro ⟨info, units, hinfo, hsome, hm⟩
        obtain ⟨units', hunits', hmem⟩ := hs₁.listed name info hinfo
        obtain rfl := Option.some.inj (hunits'.symm.trans hsome)
        obtain ⟨hm, hrest⟩ := (hmem m).mp hm
        exact ⟨(hs₁.services name).mp ((Dict.mem_iff_lookup _ _).mpr ⟨info, hinfo⟩), hin,
          (hdone m).mp hm, hrest⟩
      · rintro ⟨hservice, -, hm, hrest⟩
        obtain ⟨info, hinfo⟩ := (Dict.mem_iff_lookup _ _).mp ((hs₁.services name).mpr hservice)
        obtain ⟨units, hunits', hmem⟩ := hs₁.listed name info hinfo
        exact ⟨info, units, hinfo, hunits', (hmem m).mpr ⟨(hdone m).mpr hm, hrest⟩⟩

theorem processSubordinates_ok (hplaces : ∀ name ∈ s.unitData, Placeable k s name) :
    ∃ s', processSubordinates k s = .ok s' := by
  have hkeys := keys_apart s.unitData
  have hin : ∀ name ∈ s.unitData.keys, name ∈ s.unitData := fun name hin => AList.mem_keys.mp hin
  have hstart := gathered_nested k t H s hs
  obtain ⟨s₁, hnest⟩ := nestUnits_ok s.unitData.keys hkeys hin hstart
    fun name hmem => hplaces name (hin name hmem)
  obtain ⟨-, hs₁⟩ := nestUnits_nested s.unitData.keys hkeys hin hstart s₁ hnest
  obtain ⟨s', hname⟩ := nameServices_ok (s₁.subordinates.entries.map fun e => (e.1, e.2)) s₁ (by
    intro e he
    rw [hs₁.subordinates] at he
    have hmem : e.1 ∈ s.subordinates := (mem_entry_names _ _).mp (List.mem_map_of_mem he)
    obtain ⟨u, c, hu, hname, -⟩ := (hs.subordinates e.1).mp hmem
    exact (hs₁.services e.1).mpr (hname ▸ hs.services u hu))
  exact ⟨s', by simp only [processSubordinates, hnest, bind, Except.bind, hname]⟩

end pass

end Juju.Control
