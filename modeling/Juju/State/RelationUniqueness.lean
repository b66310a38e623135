import Juju.State.RelationState

namespace Juju.State
open Juju.Base

/-- What a charm says of one of its relations, and whether it is added alone or in a pair. -/
structure Declaration where
  interface : String
  scope : String
  alone : Bool

/-- Endpoints as the charms declare them, the two of a pair agreeing on the scope. -/
def Declares (decl : String → String → Declaration) : List RelationEndpoint → Prop
  | [e] => decl e.serviceName e.relationName = ⟨e.relationType, e.relationScope, true⟩ ∧
      (e.relationScope = "global" ∨ e.relationScope = "container")
  | [e, f] => decl e.serviceName e.relationName = ⟨e.relationType, e.relationScope, false⟩ ∧
      decl f.serviceName f.relationName = ⟨f.relationType, f.relationScope, false⟩ ∧
      (e.relationScope = "global" ∨ e.relationScope = "container") ∧
      e.mayRelateTo f ∧ e.relationScope = f.relationScope ∧
      ¬ (e.serviceName = f.serviceName ∧ e.relationName = f.relationName)
  | _ => False

/-- All the endpoints take part in the relation, with its interface. -/
def Relates (t : InternalTopology) (endpoints : List RelationEndpoint) (relationId : String) :
    Prop :=
  ∃ relation, t.relations.lookup relationId = some relation ∧
    ∀ e ∈ endpoints, t.takesPart relation e ∧ relation.interface = e.relationType

section declared

variable (decl : String → String → Declaration) (endpoints : List RelationEndpoint)

theorem mayRelateTo_type (e f : RelationEndpoint) (h : e.mayRelateTo f) :
    e.relationType = f.relationType := by
  simp only [RelationEndpoint.mayRelateTo, decide_eq_true_eq] at h
  exact h.1

/-- Each endpoint's declaration gives the common interface and the common scope. -/
theorem declares_common (h : Declares decl endpoints) :
    ∃ alone, ∀ e ∈ endpoints, decl e.serviceName e.relationName =
        ⟨e.relationType, e.relationScope, alone⟩ ∧
      endpoints.head?.map RelationEndpoint.relationType = some e.relationType ∧
      commonScope endpoints = e.relationScope := by
  match endpoints, h with
  | [e], h =>
    refine ⟨true, ?_⟩
    intro f hf
    obtain rfl := List.mem_singleton.mp hf
    refine ⟨h.1, rfl, ?_⟩
    rcases h.2 with hs | hs <;> simp [commonScope, hs]
  | [e, f], h =>
    obtain ⟨he, hf, hscope, hmay, hsame, -⟩ := h
    have htype := mayRelateTo_type e f hmay
    have hcommon : commonScope [e, f] = e.relationScope := by
      rcases hscope with hs | hs <;> simp [commonScope, ← hsame, hs]
    refine ⟨false, ?_⟩
    intro g hg
    rcases List.mem_cons.mp hg with rfl | hg
    · exact ⟨he, rfl, hcommon⟩
    · obtain rfl := List.mem_singleton.mp hg
      exact ⟨hf, by simp [htype], hcommon.trans hsame⟩

theorem declares_checked (h : Declares decl endpoints) : checkEndpoints endpoints = .ok () := by
  match endpoints, h with
  | [e], _ => rfl
  | [e, f], ⟨_, _, _, hmay, _, hne⟩ =>
    have hef : e ≠ f := by
      intro he
      exact hne (he ▸ ⟨rfl, rfl⟩)
    simp [checkEndpoints, hef, hmay]

theorem declares_ne_nil (h : Declares decl endpoints) : endpoints ≠ [] := by
  intro he
  rw [he] at h
  exact h

/-- Two endpoints stand for the same relation of the same service. -/
def SameRelation (e f : RelationEndpoint) : Prop :=
  e.serviceName = f.serviceName ∧ e.relationName = f.relationName

/-- Declared endpoints that are among others declared are all of them. -/
theorem declares_cover (others : List RelationEndpoint) (h : Declares decl endpoints)
    (h' : Declares decl others) (hsub : ∀ e ∈ endpoints, ∃ f ∈ others, SameRelation e f) :
    ∀ f ∈ others, ∃ e ∈ endpoints, SameRelation e f := by
  have halone (e f : RelationEndpoint) (he : e ∈ endpoints) (hf : f ∈ others)
      (hsame : SameRelation e f) : ∃ d, decl e.serviceName e.relationName = d ∧
        decl f.serviceName f.relationName = d :=
    ⟨_, rfl, by rw [hsame.1, hsame.2]⟩
  match endpoints, h, others, h' with
  | [e], h, [f], h' =>
    obtain ⟨g, hg, hsame⟩ := hsub e (by simp)
    obtain rfl := List.mem_singleton.mp hg
    simpa using hsame
  | [e], h, [f, g], h' =>
    obtain ⟨k, hk, hsame⟩ := hsub e (by simp)
    obtain ⟨d, hd, hd'⟩ := halone e k (by simp) hk hsame
    obtain ⟨alone, hall⟩ := declares_common decl [f, g] h'
    have hf := (hall f (by simp)).1
    rw [h'.1] at hf
    have hk' := (hall k hk).1
    rw [hd', ← hd, h.1] at hk'
    simp_all
  | [e, f], h, [g], h' =>
    obtain ⟨k, hk, hsame⟩ := hsub e (by simp)
    obtain ⟨k', hk', hsame'⟩ := hsub f (by simp)
    obtain rfl := List.mem_singleton.mp hk
    obtain rfl := List.mem_singleton.mp hk'
    exact absurd ⟨hsame.1.trans hsame'.1.symm, hsame.2.trans hsame'.2.symm⟩ h.2.2.2.2.2
  | [e, f], h, [g, k], h' =>
    obtain ⟨e', he', hsame⟩ := hsub e (by simp)
    obtain ⟨f', hf', hsame'⟩ := hsub f (by simp)
    have hne : e' ≠ f' := by
      intro he
      subst he
      exact h.2.2.2.2.2 ⟨hsame.1.trans hsame'.1.symm, hsame.2.trans hsame'.2.symm⟩
    simp only [List.mem_cons, List.not_mem_nil, or_false] at he' hf'
    intro x hx
    simp only [List.mem_cons, List.not_mem_nil, or_false] at hx
    rcases he' with rfl | rfl <;> rcases hf' with rfl | rfl <;> rcases hx with rfl | rfl <;>
      first
        | exact absurd rfl hne
        | exact ⟨e, by simp, hsame⟩
        | exact ⟨f, by simp, hsame'⟩

end declared

section lookups

variable (t : InternalTopology) (endpoints : List RelationEndpoint)

theorem findServiceWithName_some (name serviceId : String)
    (h : t.findServiceWithName name = some serviceId) :
    ∃ service, t.services.lookup serviceId = some service ∧ service.name = name := by
  obtain ⟨e, he, rfl⟩ := Option.map_eq_some_iff.mp h
  refine ⟨e.2, (Dict.mem_entries_iff _ _).mp (List.mem_of_find?_eq_some he), ?_⟩
  simpa using List.find?_some he

theorem takesPart_iff (relation : Relation) (e : RelationEndpoint) :
    t.takesPart relation e ↔ ∃ serviceId x, t.findServiceWithName e.serviceName = some serviceId ∧
      relation.services.lookup serviceId = some x ∧ x.name = e.relationName := by
  unfold InternalTopology.takesPart
  cases hs : t.findServiceWithName e.serviceName with
  | none => simp
  | some serviceId => cases hx : relation.services.lookup serviceId <;> simp [hx]

theorem takesPart_same (relation : Relation) (e f : RelationEndpoint) (h : SameRelation e f) :
    t.takesPart relation e = t.takesPart relation f := by
  simp only [InternalTopology.takesPart, h.1, h.2]

theorem hasRelationBetweenEndpoints_iff :
    t.hasRelationBetweenEndpoints endpoints ↔ ∃ relationId relation,
      t.relations.lookup relationId = some relation ∧
        ∀ e ∈ endpoints, t.takesPart relation e ∧ relation.scope = e.relationScope := by
  simp only [InternalTopology.hasRelationBetweenEndpoints, List.any_eq_true, List.all_eq_true,
    Sigma.exists, Dict.mem_entries_iff, decide_eq_true_eq]

theorem getRelationBetweenEndpoints_iff :
    (t.getRelationBetweenEndpoints endpoints).isSome ↔ ∃ relationId relation,
      t.relations.lookup relationId = some relation ∧
        endpoints.head?.map RelationEndpoint.relationType = some relation.interface ∧
        ∀ e ∈ endpoints, t.takesPart relation e := by
  simp only [InternalTopology.getRelationBetweenEndpoints, Option.isSome_map, List.find?_isSome,
    List.all_eq_true, Sigma.exists, Dict.mem_entries_iff, decide_eq_true_eq]

end lookups

theorem liftTopology_ok {α : Type} (m : TopologyM α) (t t' : InternalTopology) (a : α)
    (h : liftTopology m t = .ok a t') : m t = .ok a t' := by
  unfold liftTopology at h
  cases hm : m t with
  | ok b s =>
    rw [hm] at h
    cases h
    rfl
  | error e s =>
    rw [hm] at h
    cases h

theorem assignServiceToRelation_ok (relationId serviceId name role : String)
    (t t' : InternalTopology) (h : assignServiceToRelation relationId serviceId name role t =
      .ok () t') :
    ∃ relation, t.relations.lookup relationId = some relation ∧ t' = { t with
      relations := t.relations.insert relationId
        { relation with services := relation.services.insert serviceId ⟨name, role⟩ } } := by
  simp only [assignServiceToRelation, assertService_bind, assertRelation_bind, get_bind] at h
  split at h
  · split at h
    · rename_i hrelation
      obtain ⟨relation, hr⟩ := (Dict.mem_iff_lookup _ _).mp hrelation
      cases hconflict : roleConflict relationId serviceId role
          (t.relationServices relationId).entries with
      | some e =>
        rw [hconflict] at h
        cases h
      | none =>
        rw [hconflict] at h
        have hrun := modifyRelation_run relationId
          (fun services => services.insert serviceId ⟨name, role⟩) t relation hr
        refine ⟨relation, hr, ?_⟩
        have heq := hrun.symm.trans h
        cases heq
        rfl
    · cases h
  · cases h

/-- The services that a successful change enters are those of the endpoints. -/
theorem assignEndpoints_ok (relationId : String) (lastId : Option String)
    (services : List (Option String × RelationEndpoint)) (t t' : InternalTopology)
    (relation : Relation) (hr : t.relations.lookup relationId = some relation)
    (h : assignEndpoints relationId lastId services t = .ok () t') :
    t'.services = t.services ∧ ∃ entered : Dict String RelationService,
      (∀ rid, t'.relations.lookup rid = if rid = relationId then
        some { relation with services := entered } else t.relations.lookup rid) ∧
      ∀ sid x, entered.lookup sid = some x → relation.services.lookup sid = some x ∨
        ∃ p ∈ services, p.1 = some sid ∧ x.name = p.2.relationName := by
  induction services generalizing t relation with
  | nil =>
    cases h
    refine ⟨rfl, relation.services, ?_, fun sid x hx => Or.inl hx⟩
    intro rid
    by_cases hrid : rid = relationId
    · rw [if_pos hrid, hrid, hr]
    · rw [if_neg hrid]
  | cons p services ih =>
    obtain ⟨serviceId, e⟩ := p
    simp only [assignEndpoints, get_bind, raiseIf_bind] at h
    split at h
    · cases h
    · cases serviceId with
      | none => cases h
      | some serviceId =>
        obtain ⟨_, s, hassign, hrest⟩ := bind_ok _ _ _ _ _ h
        obtain ⟨relation', hr', rfl⟩ :=
          assignServiceToRelation_ok _ _ _ _ _ _ (liftTopology_ok _ _ _ _ hassign)
        obtain rfl : relation = relation' := Option.some.inj (hr.symm.trans hr')
        obtain ⟨hservices, entered, hlookup, hentered⟩ := ih _ _
          (by rw [Dict.lookup_insert, if_pos rfl]) hrest
        refine ⟨hservices, entered, ?_, ?_⟩
        · intro rid
          rw [hlookup rid, Dict.lookup_insert]
          by_cases hrid : rid = relationId <;> simp [hrid]
        · intro sid x hx
          rcases hentered sid x hx with hold | ⟨q, hq, hqx⟩
          · simp only [Dict.lookup_insert] at hold
            split at hold
            · obtain rfl := Option.some.inj hold
              subst ‹sid = serviceId›
              exact Or.inr ⟨_, List.mem_cons_self, rfl, rfl⟩
            · exact Or.inl hold
          · exact Or.inr ⟨q, List.mem_cons_of_mem _ hq, hqx⟩

theorem addRelation_ok (relationId relationType relationScope : String)
    (t t' : InternalTopology) (h : addRelation relationId relationType relationScope t =
      .ok () t') :
    t.relations.lookup relationId = none ∧ t' = { t with
      relations := t.relations.insert relationId ⟨relationType, relationScope, ∅⟩ } := by
  simp only [addRelation, get_bind, raiseIf_bind, modify_run] at h
  split at h
  · cases h
  · cases h
    exact ⟨AList.lookup_eq_none.mpr ‹_›, rfl⟩

/-- A successful change adds one relation between endpoints not related before. -/
theorem addRelationChange_ok (endpoints : List RelationEndpoint) (relationId : String)
    (t₀ t t' : InternalTopology)
    (h : addRelationChange (prepareAdd t₀ endpoints) relationId t = .ok () t') :
    ¬ t.hasRelationBetweenEndpoints endpoints ∧ t'.services = t.services ∧
      t.relations.lookup relationId = none ∧ ∃ entered : Dict String RelationService,
        (∀ rid, t'.relations.lookup rid = if rid = relationId then
          some ⟨(endpoints.head?.map RelationEndpoint.relationType).getD "",
            commonScope endpoints, entered⟩ else t.relations.lookup rid) ∧
        ∀ sid x, entered.lookup sid = some x → ∃ e ∈ endpoints,
          t₀.findServiceWithName e.serviceName = some sid ∧ x.name = e.relationName := by
  simp only [addRelationChange, get_bind, raiseIf_bind] at h
  split at h
  · cases h
  · rename_i hnot
    obtain ⟨_, s, hadd, hrest⟩ := bind_ok _ _ _ _ _ h
    obtain ⟨hnew, rfl⟩ := addRelation_ok _ _ _ _ _ (liftTopology_ok _ _ _ _ hadd)
    obtain ⟨hservices, entered, hlookup, hentered⟩ := assignEndpoints_ok _ _ _ _ _ _
      (by rw [Dict.lookup_insert, if_pos rfl]) hrest
    refine ⟨hnot, hservices, hnew, entered, ?_, ?_⟩
    · intro rid
      rw [hlookup rid, Dict.lookup_insert]
      by_cases hrid : rid = relationId
      · rw [if_pos hrid, if_pos hrid]
        rfl
      · rw [if_neg hrid, if_neg hrid, if_neg hrid]
    · intro sid x hx
      rcases hentered sid x hx with hold | ⟨p, hp, hid, hname⟩
      · simp at hold
      · simp only [prepareAdd, ← List.map_prod_right_eq_zip] at hp
        obtain ⟨e, he, rfl⟩ := List.mem_map.mp hp
        exact ⟨e, he, hid, hname⟩

theorem removeRelationChange_ok (relationId : String) (t t' : InternalTopology)
    (h : removeRelationChange relationId t = .ok () t') :
    t' = { t with relations := t.relations.erase relationId } := by
  simp only [removeRelationChange, get_bind, raiseIf_bind] at h
  split at h
  · cases h
  · have hremove := liftTopology_ok _ _ _ _ h
    simp only [removeRelation, assertRelation_bind, modify_run] at hremove
    split at hremove
    · cases hremove
      rfl
    · cases hremove

theorem takesPart_congr (t t' : InternalTopology) (hs : t'.services = t.services)
    (relation : Relation) (e : RelationEndpoint) :
    t'.takesPart relation e = t.takesPart relation e := by
  simp only [InternalTopology.takesPart, InternalTopology.findServiceWithName, hs]

/-- The relations of a topology are as the charms declare them, and no two are between the same
endpoints. -/
structure Declared (decl : String → String → Declaration) (t : InternalTopology) : Prop where
  services : ∀ relationId relation sid x, t.relations.lookup relationId = some relation →
    relation.services.lookup sid = some x → ∃ service alone,
      t.services.lookup sid = some service ∧
        decl service.name x.name = ⟨relation.interface, relation.scope, alone⟩
  unique : ∀ endpoints, Declares decl endpoints → ∀ id₁ relation₁ id₂ relation₂,
    t.relations.lookup id₁ = some relation₁ → t.relations.lookup id₂ = some relation₂ →
    (∀ e ∈ endpoints, t.takesPart relation₁ e) → (∀ e ∈ endpoints, t.takesPart relation₂ e) →
    id₁ = id₂

section declared

variable (decl : String → String → Declaration) (t : InternalTopology) (ht : Declared decl t)
include ht

/-- A declared endpoint in a relation has its interface and its scope. -/
theorem takesPart_declared (relationId : String) (relation : Relation)
    (hr : t.relations.lookup relationId = some relation) (endpoints : List RelationEndpoint)
    (he : Declares decl endpoints) (e : RelationEndpoint) (hmem : e ∈ endpoints)
    (hpart : t.takesPart relation e) :
    relation.interface = e.relationType ∧ relation.scope = e.relationScope := by
  obtain ⟨sid, x, hfind, hx, hname⟩ := (takesPart_iff t relation e).mp hpart
  obtain ⟨service, hs, hsname⟩ := findServiceWithName_some t _ _ hfind
  obtain ⟨service', alone, hs', hdecl⟩ := ht.services relationId relation sid x hr hx
  obtain rfl : service = service' := Option.some.inj (hs.symm.trans hs')
  obtain ⟨alone', hcommon⟩ := declares_common decl endpoints he
  have hdecl' := (hcommon e hmem).1
  rw [hsname, hname, hdecl', Declaration.mk.injEq] at hdecl
  exact ⟨hdecl.1.symm, hdecl.2.1.symm⟩

theorem relates_unique (endpoints : List RelationEndpoint) (he : Declares decl endpoints)
    (id₁ id₂ : String) (h₁ : Relates t endpoints id₁) (h₂ : Relates t endpoints id₂) :
    id₁ = id₂ := by
  obtain ⟨relation₁, hr₁, hall₁⟩ := h₁
  obtain ⟨relation₂, hr₂, hall₂⟩ := h₂
  exact ht.unique endpoints he id₁ relation₁ id₂ relation₂ hr₁ hr₂
    (fun e hmem => (hall₁ e hmem).1) (fun e hmem => (hall₂ e hmem).1)

/-- Declared endpoints are found related by the one test when they are by the other. -/
theorem hasRelation_of_relates (endpoints : List RelationEndpoint) (he : Declares decl endpoints)
    (relationId : String) (h : Relates t endpoints relationId) :
    t.hasRelationBetweenEndpoints endpoints := by
  obtain ⟨relation, hr, hall⟩ := h
  rw [hasRelationBetweenEndpoints_iff]
  refine ⟨relationId, relation, hr, ?_⟩
  intro e hmem
  have hpart := (hall e hmem).1
  exact ⟨hpart, (takesPart_declared decl t ht relationId relation hr endpoints he e hmem
    hpart).2⟩

theorem hasRelation_iff_getRelation (endpoints : List RelationEndpoint)
    (he : Declares decl endpoints) :
    t.hasRelationBetweenEndpoints endpoints = true ↔
      t.getRelationBetweenEndpoints endpoints ≠ none := by
  rw [← Option.isSome_iff_ne_none, hasRelationBetweenEndpoints_iff,
    getRelationBetweenEndpoints_iff]
  obtain ⟨alone, hcommon⟩ := declares_common decl endpoints he
  constructor
  · intro ⟨relationId, relation, hr, hall⟩
    refine ⟨relationId, relation, hr, ?_, fun e hmem => (hall e hmem).1⟩
    obtain ⟨e, hmem⟩ := List.exists_mem_of_ne_nil _ (declares_ne_nil decl endpoints he)
    rw [(hcommon e hmem).2.1, (takesPart_declared decl t ht relationId relation hr endpoints he
      e hmem (hall e hmem).1).1]
  · intro ⟨relationId, relation, hr, _, hall⟩
    refine ⟨relationId, relation, hr, fun e hmem => ⟨hall e hmem, ?_⟩⟩
    exact (takesPart_declared decl t ht relationId relation hr endpoints he e hmem
      (hall e hmem)).2

/-- Adding a relation between declared endpoints that are not related yet. -/
theorem addRelation_declared (endpoints : List RelationEndpoint) (he : Declares decl endpoints)
    (relationId : String) (t₀ t' : InternalTopology) (hs : t.services = t₀.services)
    (h : addRelationChange (prepareAdd t₀ endpoints) relationId t = .ok () t') :
    t'.services = t.services ∧ Declared decl t' := by
  obtain ⟨hnot, hservices, hnew, entered, hlookup, hentered⟩ :=
    addRelationChange_ok endpoints relationId t₀ t t' h
  obtain ⟨alone, hcommon⟩ := declares_common decl endpoints he
  have hpart (relation : Relation) (e : RelationEndpoint) :=
    takesPart_congr t t' hservices relation e
  -- an endpoint in the new relation is one of those it was added for
  have hcover (e : RelationEndpoint) (relation : Relation) (hr : relation.services = entered)
      (hin : t'.takesPart relation e) : ∃ f ∈ endpoints, SameRelation e f := by
    obtain ⟨sid, x, hfind, hx, hname⟩ := (takesPart_iff t' relation e).mp hin
    obtain ⟨f, hf, hid, hfname⟩ := hentered sid x (hr ▸ hx)
    obtain ⟨service, hl, hsname⟩ := findServiceWithName_some t' _ _ hfind
    obtain ⟨service', hl', hsname'⟩ := findServiceWithName_some t₀ _ _ hid
    rw [hservices, hs] at hl
    obtain rfl : service = service' := Option.some.inj (hl.symm.trans hl')
    exact ⟨f, hf, hsname.symm.trans hsname', hname.symm.trans hfname⟩
  have hdistinct (others : List RelationEndpoint) (ho : Declares decl others)
      (relation old : Relation) (id : String) (hr : relation.services = entered)
      (hold : t.relations.lookup id = some old)
      (hall : ∀ e ∈ others, t'.takesPart relation e)
      (hall' : ∀ e ∈ others, t'.takesPart old e) : False := by
    apply hnot
    rw [hasRelationBetweenEndpoints_iff]
    refine ⟨id, old, hold, ?_⟩
    intro f hf
    obtain ⟨e, hmem, hsame⟩ := declares_cover decl others endpoints ho he
      (fun e hmem => hcover e relation hr (hall e hmem)) f hf
    have hin : t.takesPart old f := by
      rw [← takesPart_same t old e f hsame, ← hpart]
      exact hall' e hmem
    exact ⟨hin, (takesPart_declared decl t ht id old hold endpoints he f hf hin).2⟩
  refine ⟨hservices, ?_, ?_⟩
  · intro id relation sid x hr hx
    rw [hlookup id] at hr
    split at hr
    · obtain rfl := Option.some.inj hr
      obtain ⟨e, hmem, hid, hname⟩ := hentered sid x hx
      obtain ⟨service, hl, hsname⟩ := findServiceWithName_some t₀ _ _ hid
      obtain ⟨hdecl, htype, hscope⟩ := hcommon e hmem
      refine ⟨service, alone, by rw [hservices, hs, hl], ?_⟩
      simp only [hsname, hname, hdecl, htype, hscope, Option.getD_some]
    · rw [hservices]
      exact ht.services id relation sid x hr hx
  · intro others ho id₁ relation₁ id₂ relation₂ h₁ h₂ hall₁ hall₂
    rw [hlookup] at h₁ h₂
    split at h₁ <;> split at h₂
    · exact ‹id₁ = relationId›.trans ‹id₂ = relationId›.symm
    · obtain rfl := Option.some.inj h₁
      exact (hdistinct others ho _ relation₂ id₂ rfl h₂ hall₁ hall₂).elim
    · obtain rfl := Option.some.inj h₂
      exact (hdistinct others ho _ relation₁ id₁ rfl h₁ hall₂ hall₁).elim
    · exact ht.unique others ho id₁ relation₁ id₂ relation₂ h₁ h₂
        (fun e hmem => hpart _ e ▸ hall₁ e hmem) (fun e hmem => hpart _ e ▸ hall₂ e hmem)

theorem removeRelation_declared (relationId : String) :
    Declared decl { t with relations := t.relations.erase relationId } := by
  have hold (id : String) (relation : Relation)
      (hr : (t.relations.erase relationId).lookup id = some relation) :
      t.relations.lookup id = some relation := by
    rw [Dict.lookup_erase] at hr
    split at hr
    · cases hr
    · exact hr
  refine ⟨?_, ?_⟩
  · intro id relation sid x hr hx
    exact ht.services id relation sid x (hold id relation hr) hx
  · intro endpoints he id₁ relation₁ id₂ relation₂ h₁ h₂ hall₁ hall₂
    exact ht.unique endpoints he id₁ relation₁ id₂ relation₂ (hold _ _ h₁) (hold _ _ h₂)
      hall₁ hall₂

end declared

section runs

variable {C : Type} [DecidableEq C] (decl : String → String → Declaration)

/-- The relations are as declared, and so are the calls under way. -/
structure Managed (t₀ : InternalTopology) (m : RelationManagers C) : Prop where
  services : m.topology.services = t₀.services
  declared : Declared decl m.topology
  calls : ∀ c add, (m.calls c = some (.checked add) ∨
    ∃ relationId, m.calls c = some (.created add relationId)) →
      ∃ endpoints, Declares decl endpoints ∧ add = prepareAdd t₀ endpoints

/-- The endpoints that a call is started with are declared. -/
def StartsDeclared (a : RelationAction C) : Prop :=
  ∀ c endpoints, a = .start c endpoints → Declares decl endpoints

theorem prepareAdd_congr (t t₀ : InternalTopology) (hs : t.services = t₀.services)
    (endpoints : List RelationEndpoint) : prepareAdd t endpoints = prepareAdd t₀ endpoints := by
  simp only [prepareAdd, InternalTopology.findServiceWithName, hs]

theorem relationStep_managed (t₀ : InternalTopology) (m : RelationManagers C)
    (h : Managed decl t₀ m) (a : RelationAction C) (ha : StartsDeclared decl a) :
    Managed decl t₀ (relationStep m a).1 := by
  cases a with
  | start c endpoints =>
    simp only [relationStep]
    cases hc : m.calls c with
    | some progress => exact h
    | none =>
      simp only [startAdd, declares_checked decl endpoints (ha c endpoints rfl)]
      split
      · exact h
      · rename_i hstart
        split at hstart
        · cases hstart
        · cases hstart
          refine ⟨h.services, h.declared, ?_⟩
          intro c' add hadd
          simp only [Function.update_apply] at hadd
          split at hadd
          · simp only [Option.some.injEq, AddProgress.checked.injEq, reduceCtorEq, exists_false,
              or_false] at hadd
            exact ⟨endpoints, ha c endpoints rfl,
              hadd ▸ prepareAdd_congr _ _ h.services endpoints⟩
          · exact h.calls c' add hadd
  | create c relationId =>
    simp only [relationStep]
    cases hc : m.calls c with
    | none => exact h
    | some progress =>
      cases progress with
      | created add id => exact h
      | checked add =>
        refine ⟨h.services, h.declared, ?_⟩
        intro c' add' hadd
        simp only [Function.update_apply] at hadd
        split at hadd
        · simp only [Option.some.injEq, reduceCtorEq, AddProgress.created.injEq, false_or,
            exists_eq_right'] at hadd
          exact hadd ▸ h.calls c add (Or.inl hc)
        · exact h.calls c' add' hadd
  | commit c =>
    simp only [relationStep]
    cases hc : m.calls c with
    | none => exact h
    | some progress =>
      cases progress with
      | checked add => exact h
      | created add relationId =>
        obtain ⟨endpoints, he, rfl⟩ := h.calls c add (Or.inr ⟨relationId, hc⟩)
        have hcalls : ∀ c' add, (Function.update m.calls c none c' = some (.checked add) ∨
            ∃ id, Function.update m.calls c none c' = some (.created add id)) →
            ∃ endpoints, Declares decl endpoints ∧ add = prepareAdd t₀ endpoints := by
          intro c' add hadd
          simp only [Function.update_apply] at hadd
          split at hadd
          · simp at hadd
          · exact h.calls c' add hadd
        simp only [retryTopologyChange]
        cases hchange : addRelationChange (prepareAdd t₀ endpoints) relationId m.topology with
        | error e t' => exact ⟨h.services, h.declared, hcalls⟩
        | ok _ t' =>
          obtain ⟨hservices, hdeclared⟩ := addRelation_declared decl m.topology h.declared
            endpoints he relationId t₀ t' h.services hchange
          exact ⟨hservices.trans h.services, hdeclared, hcalls⟩
  | remove relationId =>
    simp only [relationStep, retryTopologyChange]
    cases hchange : removeRelationChange relationId m.topology with
    | error e t' => exact ⟨h.services, h.declared, h.calls⟩
    | ok _ t' =>
      obtain rfl := removeRelationChange_ok relationId m.topology t' hchange
      exact ⟨h.services, removeRelation_declared decl m.topology h.declared relationId, h.calls⟩

theorem relationRun_managed (t₀ : InternalTopology) (m : RelationManagers C)
    (h : Managed decl t₀ m) (actions : List (RelationAction C))
    (ha : ∀ a ∈ actions, StartsDeclared decl a) : Managed decl t₀ (relationRun m actions) := by
  induction actions generalizing m with
  | nil => exact h
  | cons a actions ih =>
    have hstep := relationStep_managed decl t₀ m h a (ha a (by simp))
    exact ih _ hstep (fun b hb => ha b (by simp [hb]))

theorem addRelationChange_related (t t₀ : InternalTopology) (endpoints : List RelationEndpoint)
    (relationId : String) (h : t.hasRelationBetweenEndpoints endpoints) :
    addRelationChange (prepareAdd t₀ endpoints) relationId t =
      .error .relationAlreadyExists t := by
  have hadd : (prepareAdd t₀ endpoints).endpoints = endpoints := rfl
  simp [addRelationChange, hadd, h]

/-- While charms and callers agree on the scopes, the same endpoints are related once. -/
theorem endpoints_related_once (t₀ : InternalTopology) (h₀ : t₀.relations = ∅)
    (actions : List (RelationAction C)) (ha : ∀ a ∈ actions, StartsDeclared decl a)
    (endpoints : List RelationEndpoint) (he : Declares decl endpoints) :
    let m := relationRun ⟨t₀, fun _ => none⟩ actions
    (∀ id₁ id₂, Relates m.topology endpoints id₁ → Relates m.topology endpoints id₂ →
      id₁ = id₂) ∧
    (m.topology.hasRelationBetweenEndpoints endpoints = true ↔
      m.topology.getRelationBetweenEndpoints endpoints ≠ none) ∧
    (∀ c, m.calls c = none → (∃ id, Relates m.topology endpoints id) →
      relationStep m (.start c endpoints) = (m, some (.error .relationAlreadyExists))) ∧
    (∀ c add relationId, m.calls c = some (.created add relationId) →
      (∃ id, Relates m.topology add.endpoints id) →
      relationStep m (.commit c) = ({ m with calls := Function.update m.calls c none },
        some (.error .relationAlreadyExists))) := by
  intro m
  have hm : Managed decl t₀ m := by
    apply relationRun_managed decl t₀ _ _ actions ha
    refine ⟨rfl, ⟨?_, ?_⟩, by simp⟩
    · intro relationId relation sid x hr
      simp [h₀] at hr
    · intro endpoints _ id₁ relation₁ id₂ relation₂ hr
      simp [h₀] at hr
  refine ⟨fun id₁ id₂ => relates_unique decl m.topology hm.declared endpoints he id₁ id₂,
    hasRelation_iff_getRelation decl m.topology hm.declared endpoints he, ?_, ?_⟩
  · intro c hc ⟨id, hid⟩
    have hhas := hasRelation_of_relates decl m.topology hm.declared endpoints he id hid
    simp only [relationStep, hc, startAdd, declares_checked decl endpoints he, hhas, if_true]
  · intro c add relationId hc ⟨id, hid⟩
    obtain ⟨others, ho, rfl⟩ := hm.calls c add (Or.inr ⟨relationId, hc⟩)
    have hhas := hasRelation_of_relates decl m.topology hm.declared others ho id hid
    have hrun := addRelationChange_related m.topology t₀ others relationId hhas
    simp only [relationStep, hc, retryTopologyChange, hrun]

end runs

/-- Two services related as client and server, the one added twice. -/
theorem endpoints_related_once_mysql :
    let db : RelationEndpoint := ⟨"wordpress", "mysql", "db", "client", "global"⟩
    let server : RelationEndpoint := ⟨"mysql", "mysql", "server", "server", "global"⟩
    let t₀ := [.addService "s-0" "wordpress", .addService "s-1" "mysql"].foldl call freshTopology
    let m := relationRun ⟨t₀, fun _ : Nat => none⟩ [.start 0 [db, server],
      .start 1 [db, server], .create 0 "r-0", .create 1 "r-1", .commit 1, .commit 0]
    (∀ id₁ id₂, Relates m.topology [db, server] id₁ → Relates m.topology [db, server] id₂ →
      id₁ = id₂) ∧
    (m.topology.hasRelationBetweenEndpoints [db, server] = true ↔
      m.topology.getRelationBetweenEndpoints [db, server] ≠ none) := by
  intro db server t₀ m
  have h := endpoints_related_once (C := Nat) (fun _ _ => ⟨"mysql", "global", false⟩) t₀ rfl
    [.start 0 [db, server], .start 1 [db, server], .create 0 "r-0", .create 1 "r-1", .commit 1,
      .commit 0] (by simp [StartsDeclared, Declares, db, server, RelationEndpoint.mayRelateTo])
    [db, server] (by simp [Declares, db, server, RelationEndpoint.mayRelateTo])
  exact ⟨h.1, h.2.1⟩

/-- With one scope global and the other container, the same pair is related twice, and only one
of the two tests finds it. -/
theorem mixed_scopes_related_twice :
    let db : RelationEndpoint := ⟨"wordpress", "mysql", "db", "client", "global"⟩
    let server : RelationEndpoint := ⟨"mysql", "mysql", "server", "server", "container"⟩
    let t₀ := [.addService "s-0" "wordpress", .addService "s-1" "mysql"].foldl call freshTopology
    let m := relationRun ⟨t₀, fun _ : Nat => none⟩ [.start 0 [db, server], .create 0 "r-0",
      .commit 0, .start 1 [db, server], .create 1 "r-1", .commit 1]
    db.mayRelateTo server ∧
      Relates m.topology [db, server] "r-0" ∧ Relates m.topology [db, server] "r-1" ∧
      m.topology.hasRelationBetweenEndpoints [db, server] = false ∧
      m.topology.getRelationBetweenEndpoints [db, server] = some "r-1" := by
  refine ⟨by decide, ⟨_, rfl, by decide⟩, ⟨_, rfl, by decide⟩, by decide, by decide⟩

end Juju.State
