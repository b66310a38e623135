import Juju.Base.Dict

namespace Juju.State
open Juju.Base

variable {K V : Type} [DecidableEq K]

/-- The configuration of a service: the content of its node, where there is one, and the defaults
of its charm. -/
structure ServiceConfig (K V : Type) where
  node : Option (Dict K V)
  defaults : Dict K V

/-- A `ConfigState` that has been read. -/
structure ConfigState (K V : Type) where
  cache : Dict K V
  defaults : Dict K V

namespace ConfigState

def keys (c : ConfigState K V) : List K := c.cache.keys ∪ c.defaults.keys

/-- `c.get(key)` -/
def get (c : ConfigState K V) (key : K) : Option V :=
  match c.cache.lookup key with
  | some value => some value
  | none => c.defaults.lookup key

/-- `bool(c)`, which is whether the mapping has a key. -/
def truthy (c : ConfigState K V) : Bool := c.keys ≠ []

theorem not_truthy_iff (c : ConfigState K V) : c.truthy = false ↔ ∀ key, c.get key = none := by
  have hmem (key : K) : key ∈ c.keys ↔ c.get key ≠ none := by
    have hcache : key ∈ c.cache.keys ↔ c.cache.lookup key ≠ none := by
      rw [← AList.mem_keys, Dict.mem_iff_lookup, Option.ne_none_iff_exists']
    have hdefaults : key ∈ c.defaults.keys ↔ c.defaults.lookup key ≠ none := by
      rw [← AList.mem_keys, Dict.mem_iff_lookup, Option.ne_none_iff_exists']
    rw [keys, List.mem_union_iff, hcache, hdefaults, get]
    cases c.cache.lookup key <;> simp
  have hfalse : c.truthy = false ↔ c.keys = [] := by simp [truthy]
  rw [hfalse, List.eq_nil_iff_forall_not_mem]
  simp only [hmem, not_not]

end ConfigState

/-- `ServiceState.get_config` -/
def ServiceConfig.getConfig (s : ServiceConfig K V) : ConfigState K V := ⟨s.node.getD ∅, s.defaults⟩

/-- A hook context with the service that it is about; `none` where the service or its charm cannot
be read, which raises. -/
structure HookConfig (K V : Type) where
  service : Option (ServiceConfig K V)
  configOptions : Option (ConfigState K V)

namespace HookConfig

/-- `HookContext.get_config`; `none` is what is raised when the service is read. -/
def getConfig (x : HookConfig K V) : Option (ConfigState K V) × HookConfig K V :=
  match x.configOptions.filter ConfigState.truthy with
  | some options => (some options, x)
  | none =>
    match x.service with
    | none => (none, x)
    | some s => (some s.getConfig, { x with configOptions := some s.getConfig })

/-- What happens during a hook. -/
inductive Event (K V : Type) where
  /-- The node is written, or the charm of the service changes. -/
  | change (service : Option (ServiceConfig K V))
  | getConfig

/-- What the calls return, one after the other. -/
def answers (x : HookConfig K V) : List (Event K V) → List (ConfigState K V)
  | [] => []
  | .change service :: events => answers { x with service := service } events
  | .getConfig :: events => x.getConfig.1.toList ++ answers x.getConfig.2 events

/-- The service as it is at the calls, where it can be read. -/
def servicesAt (service : Option (ServiceConfig K V)) : List (Event K V) → List (ServiceConfig K V)
  | [] => []
  | .change service :: events => servicesAt service events
  | .getConfig :: events => service.toList ++ servicesAt service events

/-- An option is set or has a default at the first call, or none is at any. -/
def OneView : List (ServiceConfig K V) → Prop
  | [] => True
  | first :: rest => first.getConfig.truthy = true ∨ ∀ s ∈ rest, s.getConfig.truthy = false

section answers

variable (x : HookConfig K V)

/-- Options that count as true are not read again. -/
theorem answers_cached (events : List (Event K V)) (options : ConfigState K V)
    (h : x.configOptions = some options) (htruthy : options.truthy = true) :
    ∀ c ∈ answers x events, c = options := by
  induction events generalizing x with
  | nil => simp [answers]
  | cons e events ih =>
    cases e with
    | change service => exact ih _ h
    | getConfig =>
      have hcall : x.getConfig = (some options, x) := by
        simp [getConfig, h, Option.filter, htruthy]
      rw [answers, hcall]
      simpa using ih x h

theorem getConfig_reads (h : ∀ options, x.configOptions = some options → options.truthy = false) :
    x.getConfig = (x.service.map ServiceConfig.getConfig,
      { x with configOptions := (x.service.map ServiceConfig.getConfig).or x.configOptions }) := by
  have hnone : x.configOptions.filter ConfigState.truthy = none := by
    rw [Option.filter_eq_none_iff]
    intro options hoptions
    simp [h options hoptions]
  rw [getConfig, hnone]
  cases x with
  | mk service configOptions => cases service <;> simp

/-- While nothing is there to be read, what is returned is empty. -/
theorem answers_empty (events : List (Event K V))
    (h : ∀ options, x.configOptions = some options → options.truthy = false)
    (hempty : ∀ s ∈ servicesAt x.service events, s.getConfig.truthy = false) :
    ∀ c ∈ answers x events, c.truthy = false := by
  induction events generalizing x with
  | nil => simp [answers]
  | cons e events ih =>
    cases e with
    | change service => exact ih _ h hempty
    | getConfig =>
      rw [answers, getConfig_reads x h]
      rw [servicesAt, List.forall_mem_append] at hempty
      rw [List.forall_mem_append]
      have hfirst : ∀ c ∈ (x.service.map ServiceConfig.getConfig).toList, c.truthy = false := by
        intro c hc
        obtain ⟨s, hs, rfl⟩ := Option.map_eq_some_iff.mp (Option.mem_toList.mp hc)
        exact hempty.1 s (Option.mem_toList.mpr hs)
      refine ⟨hfirst, ih _ (fun options hoptions => ?_) hempty.2⟩
      rcases Option.or_eq_some_iff.mp hoptions with hread | ⟨-, hold⟩
      · exact hfirst options (Option.mem_toList.mpr hread)
      · exact h options hold

/-- Something is returned where there is something to be read at a call. -/
theorem answers_some (events : List (Event K V))
    (h : ∀ options, x.configOptions = some options → options.truthy = false)
    (hsome : ∃ s ∈ servicesAt x.service events, s.getConfig.truthy = true) :
    ∃ c ∈ answers x events, c.truthy = true := by
  induction events generalizing x with
  | nil => simp [servicesAt] at hsome
  | cons e events ih =>
    cases e with
    | change service => exact ih _ h hsome
    | getConfig =>
      rw [answers, getConfig_reads x h]
      cases hservice : x.service with
      | none =>
        rw [servicesAt, hservice, Option.toList_none, List.nil_append] at hsome
        obtain ⟨c, hc, htruthy⟩ := ih ⟨none, x.configOptions⟩ h hsome
        exact ⟨c, List.mem_append_right _ hc, htruthy⟩
      | some s =>
        rw [servicesAt, hservice] at hsome
        by_cases htruthy : s.getConfig.truthy = true
        · exact ⟨s.getConfig, by simp, htruthy⟩
        have hlater : ∃ s' ∈ servicesAt (some s) events, s'.getConfig.truthy = true := by
          simpa [htruthy] using hsome
        obtain ⟨c, hc, hctruthy⟩ := ih ⟨some s, some s.getConfig⟩ (by simpa using htruthy) hlater
        exact ⟨c, List.mem_append_right _ hc, hctruthy⟩

/-- The first call reads, and where an option is there the others return the same. -/
theorem answers_first (events : List (Event K V)) (first : ServiceConfig K V)
    (rest : List (ServiceConfig K V))
    (h : ∀ options, x.configOptions = some options → options.truthy = false)
    (hfirst : servicesAt x.service events = first :: rest) :
    first.getConfig ∈ answers x events ∧
      (first.getConfig.truthy = true → ∀ c ∈ answers x events, c = first.getConfig) := by
  induction events generalizing x with
  | nil => cases hfirst
  | cons e events ih =>
    cases e with
    | change service => exact ih _ h hfirst
    | getConfig =>
      rw [answers, getConfig_reads x h]
      rw [servicesAt] at hfirst
      cases hservice : x.service with
      | none =>
        rw [hservice] at hfirst
        exact ih ⟨none, x.configOptions⟩ h hfirst
      | some s =>
        rw [hservice] at hfirst
        obtain ⟨rfl, -⟩ := List.cons.inj hfirst
        refine ⟨by simp, fun htruthy => ?_⟩
        have hcached := answers_cached ⟨some s, some s.getConfig⟩ events s.getConfig rfl htruthy
        simpa using hcached

end answers

/-- All calls of a hook return the same options just when there is one view: an empty one is read
again. -/
theorem one_configuration_iff (service : Option (ServiceConfig K V)) (events : List (Event K V)) :
    (∀ c ∈ answers ⟨service, none⟩ events, ∀ c' ∈ answers ⟨service, none⟩ events,
        ∀ key, c.get key = c'.get key) ↔
      OneView (servicesAt service events) := by
  have hnone : ∀ options, (none : Option (ConfigState K V)) = some options →
      options.truthy = false := by simp
  have hempty (hall : ∀ s ∈ servicesAt service events, s.getConfig.truthy = false) :
      ∀ c ∈ answers ⟨service, none⟩ events, ∀ key, c.get key = none := by
    intro c hc
    rw [← c.not_truthy_iff]
    exact answers_empty ⟨service, none⟩ events hnone hall c hc
  cases hservices : servicesAt service events with
  | nil =>
    refine iff_of_true (fun c hc c' hc' key => ?_) trivial
    rw [hempty (by simp [hservices]) c hc, hempty (by simp [hservices]) c' hc']
  | cons first rest =>
    obtain ⟨hfirst, hsame⟩ := answers_first ⟨service, none⟩ events first rest hnone hservices
    rw [OneView]
    constructor
    · intro hone
      by_contra hviews
      rw [not_or] at hviews
      obtain ⟨hfalse, hrest⟩ := hviews
      simp only [not_forall] at hrest
      obtain ⟨s, hs, htruthy⟩ := hrest
      obtain ⟨c, hc, hctruthy⟩ := answers_some ⟨service, none⟩ events hnone
        ⟨s, by simp [hservices, hs], by simpa using htruthy⟩
      have hcfalse : c.truthy = false := by
        rw [c.not_truthy_iff]
        intro key
        rw [hone c hc _ hfirst key]
        exact first.getConfig.not_truthy_iff.mp (by simpa using hfalse) key
      rw [hcfalse] at hctruthy
      cases hctruthy
    · rintro hviews c hc c' hc' key
      by_cases htruthy : first.getConfig.truthy = true
      · rw [hsame htruthy c hc, hsame htruthy c' hc']
      have hall : ∀ s ∈ servicesAt service events, s.getConfig.truthy = false := by
        simpa [hservices, htruthy] using hviews
      rw [hempty hall c hc, hempty hall c' hc']

/-- Nothing is set at the first call, and an option is written before the second. -/
theorem written_between :
    ¬ ∀ (service : Option (ServiceConfig String Int)) (events : List (Event String Int)),
      ∀ c ∈ answers ⟨service, none⟩ events, ∀ c' ∈ answers ⟨service, none⟩ events,
        ∀ key, c.get key = c'.get key := by
  intro h
  have hsame := h (some ⟨none, ∅⟩)
    [.getConfig, .change (some ⟨some (AList.singleton "title" 1), ∅⟩), .getConfig]
    ⟨∅, ∅⟩ (List.mem_cons_self ..) ⟨AList.singleton "title" 1, ∅⟩
    (List.mem_cons_of_mem _ (List.mem_cons_self ..)) "title"
  exact absurd hsame (by decide)

end HookConfig

end Juju.State
