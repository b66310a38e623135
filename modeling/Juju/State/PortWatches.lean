import Juju.State.FirewallManager

namespace Juju.State
open Juju.Base

variable {U P : Type}

section topology

variable (w w' : TopologyWatches Nat (ServiceTopology U P)) (gone : List U)
  (calls calls' : Nat → Option (UnitsCall U)) (n n' : Nat)

/-- A content that the service state remembers, or that a callback has been called with. -/
def Remembered (c : ServiceTopology U P) : Prop :=
  w.oldTopology = some c ∨ ∃ r v, w.watches r = .calling c v

/-- A unit of the service, or one that it had. -/
def Known (units gone : List U) (u : U) : Prop := u ∈ units ∨ u ∈ gone

/-- What is known of the node when a watch of the units is in a state. -/
def WatchSound (r : Nat) : TopologyWatch (ServiceTopology U P) → Prop
  | .unregistered | .checking | .fetching => True
  | .absent _ => False
  | .calling c v => v ≤ w.version ∧ (v = w.version → w.node = some c) ∧ w.calls r ≠ []
  | .armed v => v ≤ w.version ∧ w.calls r ≠ []
  | .stopped => w.calls r ≠ []

def Live : TopologyWatch (ServiceTopology U P) → Prop
  | .checking | .fetching | .calling _ _ | .armed _ => True
  | _ => False

/-- The service state and its watches of the units, the first `n` of which are registered. -/
structure TopologySound : Prop where
  connected : w.connected = true
  present : w.node ≠ none
  never : ∀ u ∈ unitNames w.node, u ∉ gone
  remembered : ∀ c, Remembered w c → ∀ u ∈ c.units, Known (unitNames w.node) gone u
  watch : ∀ r, WatchSound w r (w.watches r)
  returned : ∀ r c, (r, c) ∈ w.returned → w.calls r ≠ []
  fresh : ∀ r, n ≤ r → w.watches r = .unregistered ∧ w.calls r = []
  busy : ∀ r, (calls r).isSome = true ↔ ∃ c v, w.watches r = .calling c v

/-- One watch moves on. -/
theorem topologySound_move (r : Nat) (h : TopologySound w gone calls n)
    (hnode : w'.node = w.node) (hversion : w'.version = w.version)
    (hconnected : w'.connected = w.connected)
    (hother : ∀ q, q ≠ r → w'.watches q = w.watches q)
    (hlog : ∀ q, q ≠ r → w'.calls q = w.calls q) (hkept : w.calls r ≠ [] → w'.calls r ≠ [])
    (hself : WatchSound w' r (w'.watches r))
    (hold : ∀ c, Remembered w' c → Remembered w c ∨ w.node = some c)
    (hreturned : ∀ q c, (q, c) ∈ w'.returned → (q, c) ∈ w.returned ∨ w'.calls q ≠ [])
    (hle : n ≤ n') (hr : r < n')
    (hbusy : (calls' r).isSome = true ↔ ∃ c v, w'.watches r = .calling c v)
    (hcalls : ∀ q, q ≠ r → calls' q = calls q) : TopologySound w' gone calls' n' where
  connected := hconnected.trans h.connected
  present := by
    rw [hnode]
    exact h.present
  never := by
    rw [hnode]
    exact h.never
  remembered c hc u hu := by
    rw [hnode]
    cases hold c hc with
    | inl hbefore => exact h.remembered c hbefore u hu
    | inr hcurrent =>
      rw [hcurrent]
      exact .inl hu
  watch q := by
    by_cases hq : q = r
    · rw [hq]
      exact hself
    · have hbefore := h.watch q
      rw [hother q hq]
      unfold WatchSound at hbefore ⊢
      rw [hlog q hq, hnode, hversion]
      exact hbefore
  returned q c hq := by
    cases hreturned q c hq with
    | inl hbefore =>
      have hlogged := h.returned q c hbefore
      by_cases hr : q = r
      · rw [hr] at hlogged ⊢
        exact hkept hlogged
      · rw [hlog q hr]
        exact hlogged
    | inr hlogged => exact hlogged
  fresh q hq := by
    have hne : q ≠ r := by omega
    rw [hother q hne, hlog q hne]
    exact h.fresh q (Nat.le_trans hle hq)
  busy q := by
    by_cases hq : q = r
    · rw [hq]
      exact hbusy
    · rw [hcalls q hq, hother q hq]
      exact h.busy q

/-- A call that is under way goes on. -/
theorem topologySound_call (r : Nat) (call : UnitsCall U) (h : TopologySound w gone calls n)
    (hcall : (calls r).isSome = true) :
    TopologySound w gone (Function.update calls r (some call)) n :=
  { h with
    busy := by
      intro q
      by_cases hq : q = r
      · subst hq
        rw [Function.update_self, ← h.busy q]
        simp [hcall]
      · rw [Function.update_of_ne hq]
        exact h.busy q }

end topology

/-- The calls under way, with the units that were removed and those that are new. -/
def CallsSound (calls : Nat → Option (UnitsCall U)) (units gone : List U) (n ports : Nat) : Prop :=
  ∀ r call, calls r = some call → call.set < n ∧ (∀ u ∈ call.removed, u ∈ gone) ∧
    (∀ u ∈ call.added, Known units gone u) ∧ ∀ i, call.doing = .watching i → i < ports

def SetsSound (sets : List (List U)) (units gone : List U) : Prop :=
  ∀ k, ∀ u ∈ sets.getD k [], Known units gone u

/-- The first call of a watch of ports is under way, or over. -/
def PortsSound (ports : List (PortWatch U P)) : Prop :=
  ∀ p ∈ ports, p.first = true → p.stage ≠ .attached ∧ p.stage ≠ .stopped

/-- The flag as the callback of the exposed flag knows it. -/
def FlagKnown (flag : Bool) (watched : Option Nat) : ExposedStage U P → Prop
  | .attached => watched.isSome = flag
  | .listing exposed => exposed = flag
  | .opening exposed _ _ => exposed = flag
  | .watching _ => flag = true
  | .stopped => True

structure ExposedSound (exposed : ExposedStage U P) (flag registered : Bool) (watched : Option Nat)
    (n : Nat) : Prop where
  frozen : exposed = .stopped → watched ≠ none
  heard : registered = true → FlagKnown flag watched exposed
  awaiting : ∀ r, exposed = .watching r → watched = some r ∧ r + 1 = n
  made : ∀ k, watched = some k → k < n

/-- A new exposure waits for the first call of its watch of the units. -/
def Waiting (exposed : ExposedStage U P) (w : TopologyWatches Nat (ServiceTopology U P)) : Prop :=
  ∃ r, exposed = .watching r ∧ w.calls r = []

/-- The units that have been seen are covered. -/
structure CoversUnits (w : TopologyWatches Nat (ServiceTopology U P)) (sets : List (List U))
    (calls : Nat → Option (UnitsCall U)) (k : Nat) : Prop where
  remembered : ∀ c, Remembered w c → ∀ u ∈ c.units, u ∈ unitNames w.node →
    FirewallWatches.Covered sets calls k u
  armed : ∀ r, w.watches r = .armed w.version → ∀ u ∈ unitNames w.node,
    FirewallWatches.Covered sets calls k u

/-- While the service is exposed the watch of the units that came with the set lives, the units
seen are covered, and those of the set have a watch of their ports. -/
structure Exposes (s : FirewallWatches U P) (k : Nat) : Prop where
  alive : Live (s.topology.watches k)
  covers : ¬ Waiting s.exposed s.topology → CoversUnits s.topology s.sets s.calls k
  ports : ∀ u ∈ s.sets.getD k [], u ∈ unitNames s.topology.node →
    FirewallWatches.HasPorts s.calls s.ports u

structure FirewallSound (s : FirewallWatches U P) : Prop where
  topology : TopologySound s.topology s.gone s.calls s.sets.length
  calls : CallsSound s.calls (unitNames s.topology.node) s.gone s.sets.length s.ports.length
  sets : SetsSound s.sets (unitNames s.topology.node) s.gone
  ports : PortsSound s.ports
  exposed : ExposedSound s.exposed s.flag s.flagRegistered s.watched s.sets.length
  exposes : ∀ k, s.watched = some k → Exposes s k

namespace FirewallWatches

section outside

variable [DecidableEq U] (s s' : FirewallWatches U P)

omit [DecidableEq U] in
theorem current_units (s : FirewallWatches U P) :
    s.current.units = unitNames s.topology.node := by
  unfold current
  cases s.topology.node <;> rfl

omit [DecidableEq U] in
theorem changeFlag_sound (exposed : Bool) (h : FirewallSound s) :
    FirewallSound (s.changeFlag exposed) := by
  unfold changeFlag
  split
  · exact h
  · refine ⟨h.topology, h.calls, h.sets, h.ports, ⟨h.exposed.frozen, nofun, h.exposed.awaiting,
      h.exposed.made⟩, ?_⟩
    intro k hk
    exact ⟨(h.exposes k hk).alive, (h.exposes k hk).covers, (h.exposes k hk).ports⟩

/-- What the units were stays known. -/
theorem known_mono (units gone units' : List U) (u : U) (h : Known units gone u) :
    Known units' (gone ++ units.filter (· ∉ units')) u := by
  cases h with
  | inl hold =>
    by_cases hnew : u ∈ units'
    · exact .inl hnew
    · exact .inr (List.mem_append_right _ (List.mem_filter.mpr ⟨hold, by simpa using hnew⟩))
  | inr hgone => exact .inr (List.mem_append_left _ hgone)

omit [DecidableEq U] in
/-- A known unit that has not gone was there before. -/
theorem known_before (units gone units' : List U) (u : U) (h : Known units gone u)
    (hnew : u ∈ units') (hnever : ∀ u ∈ units', u ∉ gone) : u ∈ units :=
  h.resolve_right (hnever u hnew)

theorem changeTopology_cases [DecidableEq P] (t : ServiceTopology U P)
    (hs : s.changeTopology t = some s') : (∀ u ∈ t.units, u ∉ s.gone) ∧
      s' = { s with
        topology := { s.topology with node := some t, version := s.topology.version + 1 }
        gone := s.gone ++ (unitNames s.topology.node).filter (· ∉ t.units) } := by
  unfold changeTopology at hs
  split at hs
  · cases hs
  · rename_i hnever
    refine ⟨fun u hu hgone => hnever ⟨u, hu, hgone⟩, ?_⟩
    exact (Option.some.inj hs).symm

theorem changeTopology_sound [DecidableEq P] (t : ServiceTopology U P) (h : FirewallSound s)
    (hs : s.changeTopology t = some s') : FirewallSound s' := by
  obtain ⟨hnever, rfl⟩ := changeTopology_cases s s' t hs
  have hknown := known_mono (unitNames s.topology.node) s.gone t.units
  have hbefore : ∀ u, Known (unitNames s.topology.node) s.gone u → u ∈ t.units →
      u ∈ unitNames s.topology.node :=
    fun u hu hnew => known_before _ s.gone t.units u hu hnew hnever
  constructor
  · constructor
    · exact h.topology.connected
    · exact nofun
    · intro u hu hgone
      cases List.mem_append.mp hgone with
      | inl hgone => exact hnever u hu hgone
      | inr hgone =>
        have hout : u ∉ t.units := by simpa using (List.mem_filter.mp hgone).2
        exact hout hu
    · exact fun c hc u hu => hknown u (h.topology.remembered c hc u hu)
    · intro r
      have hwatch := h.topology.watch r
      show WatchSound _ r (s.topology.watches r)
      cases hr : s.topology.watches r with
      | unregistered => trivial
      | checking => trivial
      | fetching => trivial
      | absent v =>
        rw [hr] at hwatch
        exact hwatch
      | calling c v =>
        rw [hr] at hwatch
        refine ⟨Nat.le_succ_of_le hwatch.1, fun heq => ?_, hwatch.2.2⟩
        have heq : v = s.topology.version + 1 := heq
        have hle : v ≤ s.topology.version := hwatch.1
        omega
      | armed v =>
        rw [hr] at hwatch
        exact ⟨Nat.le_succ_of_le hwatch.1, hwatch.2⟩
      | stopped =>
        rw [hr] at hwatch
        exact hwatch
    · exact h.topology.returned
    · exact h.topology.fresh
    · exact h.topology.busy
  · intro r call hcall
    obtain ⟨hset, hremoved, hadded, hdoing⟩ := h.calls r call hcall
    exact ⟨hset, fun u hu => List.mem_append_left _ (hremoved u hu),
      fun u hu => hknown u (hadded u hu), hdoing⟩
  · exact fun k u hu => hknown u (h.sets k u hu)
  · exact h.ports
  · exact h.exposed
  · intro k hk
    have hexposes := h.exposes k hk
    refine ⟨hexposes.alive, fun hwaiting => ⟨?_, ?_⟩, ?_⟩
    · intro c hc u hu hnew
      exact (hexposes.covers hwaiting).remembered c hc u hu
        (hbefore u (h.topology.remembered c hc u hu) hnew)
    · intro r hr
      have hwatch := h.topology.watch r
      have hr : s.topology.watches r = .armed (s.topology.version + 1) := hr
      rw [hr] at hwatch
      exact absurd hwatch.1 (Nat.not_succ_le_self s.topology.version)
    · exact fun u hu hnew => hexposes.ports u hu (hbefore u (h.sets k u hu) hnew)

theorem changePorts_sound (u : U) (h : FirewallSound s) : FirewallSound (s.changePorts u) := by
  have hlength : (s.changePorts u).ports.length = s.ports.length := List.length_map _
  refine ⟨h.topology, ?_, h.sets, fun q hq hfirst => ?_, h.exposed, ?_⟩
  · rw [hlength]
    exact h.calls
  · obtain ⟨p, hp, rfl⟩ := List.mem_map.mp hq
    by_cases hu : p.unit = u
    · rw [if_pos hu] at hfirst ⊢
      exact h.ports p hp hfirst
    · rw [if_neg hu] at hfirst ⊢
      exact h.ports p hp hfirst
  · intro k hk
    have hexposes := h.exposes k hk
    refine ⟨hexposes.alive, hexposes.covers, fun v hv hunit => ?_⟩
    cases hexposes.ports v hv hunit with
    | inl hfinding => exact .inl hfinding
    | inr hports =>
      obtain ⟨p, hp, hpunit, hstage⟩ := hports
      refine .inr ⟨_, List.mem_map_of_mem hp, ?_⟩
      split
      · exact ⟨hpunit, hstage⟩
      · exact ⟨hpunit, hstage⟩

end outside

section exposed

variable (s s' : FirewallWatches U P)

/-- The callback of the exposed flag goes on, and no watch of the units with it. -/
theorem setExposed_sound (exposed : ExposedStage U P) (h : FirewallSound s)
    (hexposed : ExposedSound exposed s.flag s.flagRegistered s.watched s.sets.length)
    (hwaiting : Waiting s.exposed s.topology → Waiting exposed s.topology) :
    FirewallSound { s with exposed := exposed } := by
  refine ⟨h.topology, h.calls, h.sets, h.ports, hexposed, fun k hk => ?_⟩
  have hexposes := h.exposes k hk
  exact ⟨hexposes.alive, fun hnot => hexposes.covers fun hw => hnot (hwaiting hw), hexposes.ports⟩

theorem invokeExposed_sound (h : FirewallSound s) (hattached : s.exposed = .attached) :
    FirewallSound { s with exposed := .listing s.flag, flagRegistered := true } := by
  refine ⟨h.topology, h.calls, h.sets, h.ports, ⟨nofun, fun _ => rfl, nofun, h.exposed.made⟩,
    fun k hk => ?_⟩
  have hexposes := h.exposes k hk
  refine ⟨hexposes.alive, fun _ => hexposes.covers ?_, hexposes.ports⟩
  rintro ⟨r, hr, _⟩
  rw [hattached] at hr
  cases hr

/-- A stage in which no unit watch is awaited. -/
theorem exposed_goes_on (exposed : ExposedStage U P) (h : FirewallSound s)
    (hno : ∀ r, s.exposed ≠ .watching r) (hnext : ∀ r, exposed ≠ .watching r)
    (hrunning : exposed ≠ .stopped)
    (hknown : FlagKnown s.flag s.watched s.exposed → FlagKnown s.flag s.watched exposed) :
    FirewallSound { s with exposed := exposed } := by
  apply setExposed_sound s exposed h
  · refine ⟨fun hstopped => absurd hstopped hrunning, fun hregistered => ?_, ?_, h.exposed.made⟩
    · exact hknown (h.exposed.heard hregistered)
    · exact fun r hr => absurd hr (hnext r)
  · rintro ⟨r, hr, _⟩
    exact absurd hr (hno r)

theorem unexposed_sound (h : FirewallSound s) (hfalse : s.flagRegistered = true → s.flag = false) :
    FirewallSound { s with watched := none, exposed := .attached } := by
  refine ⟨h.topology, h.calls, h.sets, h.ports, ⟨nofun, fun hregistered => ?_, nofun, nofun⟩, nofun⟩
  rw [hfalse hregistered]
  rfl

theorem getD_append_nil (sets : List (List U)) (k : Nat) :
    (sets ++ [[]]).getD k [] = sets.getD k [] := by
  simp only [List.getD_eq_getElem?_getD, List.getElem?_append]
  split
  · rfl
  · rename_i hk
    have hnone : sets[k]? = none := List.getElem?_eq_none (by omega)
    rw [hnone]
    cases hsub : k - sets.length with
    | zero => rfl
    | succ j => rfl

theorem firstCallEnded_called (h : FirewallSound s) (r : Nat) (hr : s.firstCallEnded r = true) :
    s.topology.calls r ≠ [] := by
  have hwatch := h.topology.watch r
  have hreturned : r ∈ s.topology.returned.map Prod.fst → s.topology.calls r ≠ [] := by
    intro hmem
    obtain ⟨⟨q, c⟩, hc, rfl⟩ := List.mem_map.mp hmem
    exact h.topology.returned q c hc
  unfold firstCallEnded at hr
  cases hstate : s.topology.watches r with
  | stopped =>
    rw [hstate] at hwatch
    exact hwatch
  | _ =>
    rw [hstate] at hr
    exact hreturned (of_decide_eq_true hr)

theorem watchUnits_cases (h : FirewallSound s) (hs : s.watchUnits = some s') :
    s' = { s with
      topology := s.topology.setWatch s.sets.length .checking
      watched := some s.sets.length
      sets := s.sets ++ [[]]
      exposed := .watching s.sets.length } := by
  have hfresh := (h.topology.fresh s.sets.length (Nat.le_refl _)).1
  simp only [watchUnits, TopologyWatches.step, hfresh, TopologyWatches.watchTopology,
    h.topology.connected, if_true, Option.map_some] at hs
  exact (Option.some.inj hs).symm

theorem watchUnits_sound (h : FirewallSound s)
    (htrue : s.flagRegistered = true → s.flag = true) (hs : s.watchUnits = some s') :
    FirewallSound s' := by
  obtain rfl := watchUnits_cases s s' h hs
  have hfresh := h.topology.fresh s.sets.length (Nat.le_refl _)
  have hlength : (s.sets ++ [[]]).length = s.sets.length + 1 := by simp
  have hself : (s.topology.setWatch s.sets.length .checking).watches s.sets.length = .checking := by
    simp [TopologyWatches.setWatch]
  have hother : ∀ q, q ≠ s.sets.length →
      (s.topology.setWatch s.sets.length .checking).watches q = s.topology.watches q := by
    intro q hq
    simp [TopologyWatches.setWatch, hq]
  constructor
  · apply topologySound_move s.topology (s.topology.setWatch s.sets.length .checking) s.gone s.calls
      s.calls s.sets.length _ s.sets.length h.topology rfl rfl rfl hother (fun _ _ => rfl)
      (fun hne => hne)
    · rw [hself]
      trivial
    · rintro c (hold | ⟨r, v, hr⟩)
      · exact .inl (.inl hold)
      · by_cases hq : r = s.sets.length
        · rw [hq, hself] at hr
          cases hr
        · rw [hother r hq] at hr
          exact .inl (.inr ⟨r, v, hr⟩)
    · exact fun q c hq => .inl hq
    · rw [hlength]
      exact Nat.le_succ _
    · rw [hlength]
      exact Nat.lt_succ_self _
    · rw [h.topology.busy, hfresh.1, hself]
      simp
    · exact fun _ _ => rfl
  · intro r call hcall
    obtain ⟨hset, hrest⟩ := h.calls r call hcall
    refine ⟨?_, hrest⟩
    rw [hlength]
    exact Nat.lt_succ_of_lt hset
  · intro k u hu
    rw [getD_append_nil] at hu
    exact h.sets k u hu
  · exact h.ports
  · refine ⟨fun hstopped => (by cases hstopped), htrue, ?_, ?_⟩
    · intro r hr
      cases hr
      exact ⟨rfl, hlength.symm⟩
    · intro k hk
      obtain rfl := Option.some.inj hk
      rw [hlength]
      exact Nat.lt_succ_self _
  · intro k hk
    obtain rfl := Option.some.inj hk
    refine ⟨?_, fun hnot => ?_, fun u hu => ?_⟩
    · rw [hself]
      trivial
    · exact absurd ⟨s.sets.length, rfl, hfresh.2⟩ hnot
    · rw [getD_append_nil] at hu
      simp at hu

theorem exposedGoesOn_sound [DecidableEq U] [DecidableEq P] (h : FirewallSound s)
    (hfine : s.Undisturbed .exposedGoesOn) (hs : s.exposedGoesOn = some s') :
    FirewallSound s' := by
  cases hstage : s.exposed with
  | attached => simp [exposedGoesOn, hstage] at hs
  | stopped => simp [exposedGoesOn, hstage] at hs
  | listing exposed =>
    simp only [exposedGoesOn, hstage] at hs
    obtain rfl := Option.some.inj hs
    apply exposed_goes_on s (.opening exposed s.current.units .unit) h _ nofun nofun
    · rw [hstage]
      exact id
    · rw [hstage]
      exact nofun
  | watching r =>
    simp only [exposedGoesOn, hstage] at hs
    obtain ⟨hended, hs⟩ := Option.ite_none_right_eq_some.mp hs
    obtain rfl := Option.some.inj hs
    have hcalled := firstCallEnded_called s h r hended
    apply setExposed_sound s .attached h
    · refine ⟨nofun, fun hregistered => ?_, nofun, h.exposed.made⟩
      have hknown := h.exposed.heard hregistered
      rw [hstage] at hknown
      show s.watched.isSome = s.flag
      rw [(h.exposed.awaiting r hstage).1, hknown]
      rfl
    · rintro ⟨q, hq, hcalls⟩
      rw [hstage] at hq
      cases hq
      exact absurd hcalls hcalled
  | opening exposed units next =>
    have hflag : s.flagRegistered = true → exposed = s.flag := by
      intro hregistered
      have hknown := h.exposed.heard hregistered
      rw [hstage] at hknown
      exact hknown
    have hno : ∀ r, s.exposed ≠ .watching r := by
      rw [hstage]
      exact nofun
    have hopening : ∀ units next,
        FirewallSound { s with exposed := .opening exposed units next } := by
      intro units next
      apply exposed_goes_on s (.opening exposed units next) h hno nofun nofun
      rw [hstage]
      exact id
    cases units with
    | nil =>
      simp only [exposedGoesOn, hstage] at hs
      cases exposed with
      | true => exact watchUnits_sound s s' h (fun hr => (hflag hr).symm) hs
      | false =>
        obtain rfl := Option.some.inj hs
        exact unexposed_sound s h (fun hr => (hflag hr).symm)
    | cons u units =>
      simp only [exposedGoesOn, hstage] at hs
      cases hread : next.read s.current u with
      | goesOn next' =>
        rw [hread] at hs
        obtain rfl := Option.some.inj hs
        exact hopening _ _
      | found =>
        rw [hread] at hs
        obtain rfl := Option.some.inj hs
        exact hopening _ _
      | stateChanged =>
        rw [hread] at hs
        obtain rfl := Option.some.inj hs
        have hwatched := hfine exposed u units next hstage (by rw [Vanished, hread]; trivial)
        apply setExposed_sound s .stopped h ⟨fun _ => hwatched, fun _ => trivial, nofun,
          h.exposed.made⟩
        rintro ⟨r, hr, _⟩
        exact absurd hr (hno r)

end exposed

section unitWatches

variable (s s' : FirewallWatches U P) (r : Nat)

theorem coversUnits_all (w : TopologyWatches Nat (ServiceTopology U P)) (sets : List (List U))
    (calls : Nat → Option (UnitsCall U)) (k : Nat)
    (h : ∀ u ∈ unitNames w.node, Covered sets calls k u) : CoversUnits w sets calls k :=
  ⟨fun _ _ u _ hu => h u hu, fun _ _ u hu => h u hu⟩

theorem watches_setWatch_self (w : TopologyWatches Nat (ServiceTopology U P))
    (watch : TopologyWatch (ServiceTopology U P)) : (w.setWatch r watch).watches r = watch := by
  simp [TopologyWatches.setWatch]

theorem watches_setWatch_of_ne (w : TopologyWatches Nat (ServiceTopology U P))
    (watch : TopologyWatch (ServiceTopology U P)) (q : Nat) (hq : q ≠ r) :
    (w.setWatch r watch).watches q = w.watches q := by
  simp [TopologyWatches.setWatch, hq]

theorem live_move (w w' : TopologyWatches Nat (ServiceTopology U P)) (k : Nat)
    (hother : ∀ q, q ≠ r → w'.watches q = w.watches q) (hself : Live (w'.watches r))
    (h : Live (w.watches k)) : Live (w'.watches k) := by
  by_cases hk : k = r
  · rw [hk]
    exact hself
  · rw [hother k hk]
    exact h

theorem registered_lt (h : FirewallSound s) (hr : s.topology.watches r ≠ .unregistered) :
    r < s.sets.length := by
  by_contra hle
  exact hr (h.topology.fresh r (Nat.le_of_not_lt hle)).1

/-- No call of `cb_check_service_units` is under way for a watch that has none. -/
theorem idle_call (h : FirewallSound s) (hr : ∀ c v, s.topology.watches r ≠ .calling c v) :
    s.calls r = none := by
  cases hcall : s.calls r with
  | none => rfl
  | some call =>
    have hsome : (s.calls r).isSome = true := by
      rw [hcall]
      rfl
    obtain ⟨c, v, hcalling⟩ := (h.topology.busy r).mp hsome
    exact absurd hcalling (hr c v)

/-- A watch of the units asks for the topology. -/
theorem fetching_sound (h : FirewallSound s) (hr : s.topology.watches r = .checking ∨
      ∃ v, s.topology.watches r = .armed v) :
    FirewallSound { s with topology := s.topology.setWatch r .fetching } := by
  have hself := watches_setWatch_self r s.topology .fetching
  have hother := watches_setWatch_of_ne r s.topology .fetching
  have hset : s.topology.watches r ≠ .unregistered := by
    obtain hr | ⟨v, hr⟩ := hr
    all_goals simp [hr]
  have hidle : ∀ c v, s.topology.watches r ≠ .calling c v := by
    obtain hr | ⟨v, hr⟩ := hr
    all_goals simp [hr]
  have hremembered : ∀ c, Remembered (s.topology.setWatch r .fetching) c →
      Remembered s.topology c := by
    rintro c (hold | ⟨q, v, hq⟩)
    · exact .inl hold
    · by_cases hqr : q = r
      · rw [hqr, hself] at hq
        cases hq
      · rw [hother q hqr] at hq
        exact .inr ⟨q, v, hq⟩
  refine ⟨?_, h.calls, h.sets, h.ports, h.exposed, fun k hk => ?_⟩
  · apply topologySound_move s.topology (s.topology.setWatch r .fetching) s.gone s.calls s.calls
      s.sets.length s.sets.length r h.topology rfl rfl rfl hother (fun _ _ => rfl) (fun hne => hne)
    · rw [hself]
      trivial
    · exact fun c hc => .inl (hremembered c hc)
    · exact fun _ _ hq => .inl hq
    · exact Nat.le_refl _
    · exact registered_lt s r h hset
    · rw [idle_call s r h hidle, hself]
      simp
    · exact fun _ _ => rfl
  · have hexposes := h.exposes k hk
    refine ⟨live_move r s.topology _ k hother ?_ hexposes.alive, fun hnot => ?_, hexposes.ports⟩
    · rw [hself]
      trivial
    · have hcovers := hexposes.covers hnot
      refine ⟨fun c hc => hcovers.remembered c (hremembered c hc), fun q hq => ?_⟩
      have hqr : q ≠ r := by
        rintro rfl
        rw [hself] at hq
        cases hq
      rw [hother q hqr] at hq
      exact hcovers.armed q hq

theorem existsReply_sound (h : FirewallSound s)
    (w : TopologyWatches Nat (ServiceTopology U P))
    (hs : s.topology.step (.existsReply r) = some w) : FirewallSound { s with topology := w } := by
  dsimp only [TopologyWatches.step] at hs
  split at hs
  · rename_i hchecking
    split at hs
    · simp only [TopologyWatches.topologyChanged, h.topology.connected, if_true] at hs
      obtain rfl := Option.some.inj hs
      exact fetching_sound s r h (.inl hchecking)
    · rename_i hnode
      exact absurd hnode h.topology.present
  · cases hs

theorem fire_sound (h : FirewallSound s) (w : TopologyWatches Nat (ServiceTopology U P))
    (hs : s.topology.step (.fire r) = some w) : FirewallSound { s with topology := w } := by
  have hwatch := h.topology.watch r
  dsimp only [TopologyWatches.step] at hs
  split at hs
  · rename_i v habsent
    rw [habsent] at hwatch
    exact hwatch.elim
  · rename_i v harmed
    split at hs
    · cases hs
    · simp only [TopologyWatches.topologyChanged, h.topology.connected, if_true] at hs
      obtain rfl := Option.some.inj hs
      exact fetching_sound s r h (.inr ⟨v, harmed⟩)
  · cases hs

end unitWatches

section replies

variable (s s' : FirewallWatches U P) (r : Nat) (new : ServiceTopology U P)

theorem call_watches : (s.topology.call r new).watches r = .calling new s.topology.version :=
  watches_setWatch_self r s.topology _

theorem call_watches_of_ne (q : Nat) (hq : q ≠ r) :
    (s.topology.call r new).watches q = s.topology.watches q :=
  watches_setWatch_of_ne r s.topology _ q hq

theorem call_calls : (s.topology.call r new).calls r ≠ [] := by
  simp [TopologyWatches.call]

theorem call_calls_of_ne (q : Nat) (hq : q ≠ r) :
    (s.topology.call r new).calls q = s.topology.calls q := by
  simp [TopologyWatches.call, hq]

/-- What becomes of the topology when a watch of the units has its reply. -/
theorem answered_topology (w : TopologyWatches Nat (ServiceTopology U P))
    (calls : Nat → Option (UnitsCall U)) (h : FirewallSound s) (hnode : s.topology.node = some new)
    (hfetching : s.topology.watches r = .fetching) (hw : w.node = s.topology.node)
    (hversion : w.version = s.topology.version) (hconnected : w.connected = s.topology.connected)
    (hother : ∀ q, q ≠ r → w.watches q = s.topology.watches q)
    (hlog : w.calls = (s.topology.call r new).calls)
    (hself : w.watches r = .armed s.topology.version ∨ w.watches r = .stopped ∨
      w.watches r = .calling new s.topology.version)
    (hold : w.oldTopology = s.topology.oldTopology ∨ w.oldTopology = some new)
    (hreturned : w.returned = s.topology.returned ∨
      w.returned = s.topology.returned ++ [(r, new)])
    (hbusy : (calls r).isSome = true ↔ ∃ c v, w.watches r = .calling c v)
    (hcalls : ∀ q, q ≠ r → calls q = s.calls q) :
    TopologySound w s.gone calls s.sets.length := by
  have hlogged : w.calls r ≠ [] := by
    rw [hlog]
    exact call_calls s r new
  apply topologySound_move s.topology w s.gone s.calls calls s.sets.length s.sets.length r h.topology
    hw hversion hconnected hother _ (fun _ => hlogged) _ _ _ (Nat.le_refl _) _ hbusy hcalls
  · intro q hq
    rw [hlog]
    exact call_calls_of_ne s r new q hq
  · obtain hr | hr | hr := hself
    · rw [hr]
      exact ⟨Nat.le_of_eq hversion.symm, hlogged⟩
    · rw [hr]
      exact hlogged
    · rw [hr]
      exact ⟨Nat.le_of_eq hversion.symm, fun _ => hw.trans hnode, hlogged⟩
  · rintro c (hc | ⟨q, v, hq⟩)
    · cases hold with
      | inl hsame => exact .inl (.inl (hsame ▸ hc))
      | inr hnew =>
        rw [hnew] at hc
        exact .inr (hnode.trans hc)
    · by_cases hqr : q = r
      · rw [hqr] at hq
        obtain hr | hr | hr := hself
        · rw [hr] at hq
          cases hq
        · rw [hr] at hq
          cases hq
        · rw [hr] at hq
          cases hq
          exact .inr hnode
      · rw [hother q hqr] at hq
        exact .inl (.inr ⟨q, v, hq⟩)
  · intro q c hq
    cases hreturned with
    | inl hsame => exact .inl (hsame ▸ hq)
    | inr hmore =>
      rw [hmore] at hq
      cases List.mem_append.mp hq with
      | inl hq => exact .inl hq
      | inr hq =>
        cases List.mem_singleton.mp hq
        exact .inr hlogged
  · apply registered_lt s r h
    simp [hfetching]

variable [DecidableEq U]

theorem getReply_cases (h : FirewallSound s) (hs : s.getReply r = some s') :
    ∃ new, s.topology.node = some new ∧ s.topology.watches r = .fetching ∧
      (sameUnits (unitNames s.topology.oldTopology) new.units ∧ s' = { s with
          topology := { (s.topology.call r new).setWatch r (.armed s.topology.version) with
            oldTopology := some new
            returned := s.topology.returned ++ [(r, new)] } } ∨
        s.watched = none ∧
          s' = { s with topology := (s.topology.call r new).setWatch r .stopped } ∨
        ∃ k, s.watched = some k ∧ s' = setCall { s with topology := s.topology.call r new } r
          (some ⟨k, (unitNames s.topology.oldTopology).filter (· ∉ new.units), new.units,
            .between⟩)) := by
  obtain ⟨w, hw, hs⟩ := Option.bind_eq_some_iff.mp hs
  dsimp only [TopologyWatches.step] at hw
  split at hw
  · rename_i hfetching
    cases hnode : s.topology.node with
    | none => exact absurd hnode h.topology.present
    | some new =>
      rw [hnode] at hw hs
      obtain rfl := Option.some.inj hw
      refine ⟨new, rfl, hfetching, ?_⟩
      have hcalled := call_watches s r new
      simp only [TopologyWatches.step, hcalled, Option.map_some] at hs
      split at hs
      · rename_i hsame
        exact .inl ⟨hsame, (Option.some.inj hs).symm⟩
      · split at hs
        · rename_i hwatched
          exact .inr (.inl ⟨hwatched, (Option.some.inj hs).symm⟩)
        · rename_i k hwatched
          exact .inr (.inr ⟨k, hwatched, (Option.some.inj hs).symm⟩)
  · cases hw

end replies

end FirewallWatches

end Juju.State
