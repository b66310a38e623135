import Juju.Charm.ConfigValidation

namespace Juju.Charm.ServiceOptions
open Juju.Base Juju.Config Juju.Lib

/-- An element of `Q` is reached through elements of `P`. -/
def Reaches {α : Type} (P Q : α → Prop) (l : List α) : Prop :=
  ∃ l₁ a l₂, l = l₁ ++ a :: l₂ ∧ (∀ b ∈ l₁, P b) ∧ Q a

theorem reaches_nil {α : Type} (P Q : α → Prop) : ¬ Reaches P Q [] := by
  rintro ⟨l₁, a, l₂, h, -⟩
  simp at h

theorem reaches_cons {α : Type} (P Q : α → Prop) (a : α) (l : List α) :
    Reaches P Q (a :: l) ↔ Q a ∨ (P a ∧ Reaches P Q l) := by
  constructor
  · rintro ⟨l₁, b, l₂, hl, hP, hQ⟩
    cases l₁ with
    | nil =>
      obtain ⟨rfl, -⟩ := List.cons.inj hl
      exact Or.inl hQ
    | cons c l₁ =>
      obtain ⟨rfl, rfl⟩ := List.cons.inj hl
      refine Or.inr ⟨hP a List.mem_cons_self, l₁, b, l₂, rfl, ?_, hQ⟩
      exact fun x hx => hP x (List.mem_cons_of_mem a hx)
  · intro h
    cases h with
    | inl hQ => exact ⟨[], a, l, rfl, by simp, hQ⟩
    | inr hrest =>
      obtain ⟨hP, l₁, b, l₂, rfl, hP₁, hQ⟩ := hrest
      exact ⟨a :: l₁, b, l₂, rfl, by simpa [hP] using hP₁, hQ⟩

namespace ConfigRaised

def isServiceConfig : ConfigRaised → Bool
  | serviceConfigError _ _ => true
  | serviceConfigValueError _ => true
  | _ => false

end ConfigRaised

namespace ConfigOptions

/-- Values of the declared types, at names of options. -/
def Typed (data values : Entries) : Prop :=
  ∀ e ∈ values, ∃ kind, Declared data e.1 kind ∧ HasType kind e.2

section validate

variable (o : ConfigOptions) (h : WellFormed o.data) (options : Entries)
include h

theorem validate_fits (hfits : ∀ item ∈ options, Fits o.data item) :
    ∃ d, o.validate options = .ok d ∧ d.map Prod.fst = options.map Prod.fst ∧
      Typed o.data d ∧ o.validate d = .ok d := by
  induction options with
  | nil => exact ⟨[], rfl, rfl, by simp [Typed], rfl⟩
  | cons item options ih =>
    obtain ⟨v, hv, hagain, htype⟩ := o.validateItem_fits h item (hfits item List.mem_cons_self)
    obtain ⟨d, hd, hnames, htyped, hdagain⟩ :=
      ih fun item' hitem => hfits item' (List.mem_cons_of_mem item hitem)
    refine ⟨(item.1, v) :: d, ?_, ?_, ?_, ?_⟩
    · rw [validate, List.mapM_cons, hv, ← validate, hd]
      rfl
    · rw [List.map_cons, List.map_cons, hnames]
    · intro e he
      cases List.mem_cons.mp he with
      | inl hfirst => exact hfirst ▸ htype
      | inr hrest => exact htyped e hrest
    · rw [validate, List.mapM_cons, hagain, ← validate, hdagain]
      rfl

theorem validate_escapes (hreaches : Reaches (Fits o.data) (Escapes o.data) options) :
    o.validate options = .error .typeError ∨ o.validate options = .error .overflowError := by
  induction options with
  | nil => exact absurd hreaches (reaches_nil _ _)
  | cons item options ih =>
    cases (reaches_cons _ _ item options).mp hreaches with
    | inl hescapes =>
      refine (o.validateItem_escapes h item hescapes).imp ?_ ?_
      · intro herror
        rw [validate, List.mapM_cons, herror]
        rfl
      · intro herror
        rw [validate, List.mapM_cons, herror]
        rfl
    | inr hrest =>
      obtain ⟨v, hv, -⟩ := o.validateItem_fits h item hrest.1
      refine (ih hrest.2).imp ?_ ?_
      · intro herror
        rw [validate, List.mapM_cons, hv, ← validate, herror]
        rfl
      · intro herror
        rw [validate, List.mapM_cons, hv, ← validate, herror]
        rfl

theorem validate_refuses (hno : ¬ Reaches (Fits o.data) (Escapes o.data) options)
    (hfits : ¬ ∀ item ∈ options, Fits o.data item) :
    ∃ message, o.validate options = .error (.serviceConfigValueError message) := by
  induction options with
  | nil => exact absurd (by simp) hfits
  | cons item options ih =>
    rw [reaches_cons, not_or] at hno
    by_cases hitem : Fits o.data item
    · obtain ⟨v, hv, -⟩ := o.validateItem_fits h item hitem
      obtain ⟨message, herror⟩ := ih (fun hrest => hno.2 ⟨hitem, hrest⟩)
        (fun hall => hfits (by simpa [hitem] using hall))
      refine ⟨message, ?_⟩
      rw [validate, List.mapM_cons, hv, ← validate, herror]
      rfl
    · obtain ⟨message, herror⟩ := o.validateItem_refuses h item hitem hno.1
      refine ⟨message, ?_⟩
      rw [validate, List.mapM_cons, herror]
      rfl

end validate

/-- `validate` returns typed values that it maps to themselves, or raises its error. -/
def ValidatesCleanly (o : ConfigOptions) (options : Entries) : Prop :=
  (∃ d, o.validate options = .ok d ∧ d.map Prod.fst = options.map Prod.fst ∧
      Typed o.data d ∧ o.validate d = .ok d) ∨
    ∃ message, o.validate options = .error (.serviceConfigValueError message)

theorem validatesCleanly_iff (o : ConfigOptions) (h : WellFormed o.data) (options : Entries) :
    o.ValidatesCleanly options ↔ ¬ Reaches (Fits o.data) (Escapes o.data) options := by
  constructor
  · intro hclean hreaches
    have herror := o.validate_escapes h options hreaches
    cases hclean with
    | inl hok =>
      obtain ⟨d, hd, -⟩ := hok
      simp [hd] at herror
    | inr hraised =>
      obtain ⟨message, hmessage⟩ := hraised
      simp [hmessage] at herror
  · intro hno
    by_cases hfits : ∀ item ∈ options, Fits o.data item
    · exact Or.inl (o.validate_fits h options hfits)
    · exact Or.inr (o.validate_refuses h options hno hfits)

/-- The defaults of the options, as they were loaded. -/
def defaults (data : Entries) : Entries :=
  data.filterMap fun e =>
    match e.2 with
    | .dict info => (info.lookup (.str "default")).map fun default => (e.1, default)
    | _ => none

/-- The defaults are validated as values that are given. -/
theorem getDefaults_eq (o : ConfigOptions) (h : WellFormed o.data) :
    o.getDefaults = o.validate (defaults o.data) := by
  have hloop (items : Entries) (hin : ∀ e ∈ items, e ∈ o.data) :
      o.getDefaultsLoop items = o.validate (defaults items) := by
    induction items with
    | nil => rfl
    | cons e items ih =>
      have hrest := ih fun e' he' => hin e' (List.mem_cons_of_mem e he')
      obtain ⟨name, value⟩ := e
      have hmem := hin (name, value) List.mem_cons_self
      obtain ⟨-, info, hinfo, -⟩ := h (name, value) hmem
      obtain rfl : value = .dict info := hinfo
      have hname : o.data.lookup name ≠ none :=
        (Entries.lookup_ne_none _ _).mpr ⟨(name, .dict info), hmem, rfl⟩
      cases hdefault : info.lookup (.str "default") with
      | none =>
        have hsame : defaults ((name, .dict info) :: items) = defaults items := by
          simp [defaults, hdefault]
        rw [hsame, ← hrest]
        simp only [getDefaultsLoop, asDict, bind, Except.bind, hdefault]
      | some default =>
        have hsame : defaults ((name, .dict info) :: items) =
            (name, default) :: defaults items := by
          simp [defaults, hdefault]
        rw [hsame, validate, List.mapM_cons, o.validateItem_eq (name, default) hname, ← validate,
          ← hrest]
        simp only [getDefaultsLoop, asDict, bind, Except.bind, hdefault]
        cases o.validateOne name default <;> rfl
  exact hloop o.data fun e he => he

end ConfigOptions

end Juju.Charm.ServiceOptions
