import Juju.State.UnitsCalls

namespace Juju.State.FirewallWatches
open Juju.Base

variable {U P : Type}

section ports

variable (calls : Nat → Option (UnitsCall U)) (ports : List (PortWatch U P)) (i : Nat)
  (p p' : PortWatch U P) (u : U)

theorem hasPorts_set_of_erase (h : HasPorts calls (ports.eraseIdx i) u) :
    HasPorts calls (ports.set i p') u := by
  cases h with
  | inl hfinding => exact .inl hfinding
  | inr hports =>
    obtain ⟨q, hq, hunit, hstage⟩ := hports
    obtain ⟨j, hji, hj⟩ := List.mem_eraseIdx_iff_getElem?.mp hq
    refine .inr ⟨q, ?_, hunit, hstage⟩
    apply List.mem_of_getElem? (i := j)
    rw [List.getElem?_set_ne (Ne.symm hji)]
    exact hj

/-- A watch of other ports moves on. -/
theorem hasPorts_set_of_ne (hp : ports[i]? = some p) (hne : p.unit ≠ u)
    (h : HasPorts calls ports u) : HasPorts calls (ports.set i p') u := by
  cases h with
  | inl hfinding => exact .inl hfinding
  | inr hports =>
    obtain ⟨q, hq, hunit, hstage⟩ := hports
    obtain ⟨j, hj⟩ := List.mem_iff_getElem?.mp hq
    have hji : i ≠ j := by
      rintro rfl
      obtain rfl := Option.some.inj (hp.symm.trans hj)
      exact hne hunit
    refine .inr ⟨q, ?_, hunit, hstage⟩
    apply List.mem_of_getElem? (i := j)
    rw [List.getElem?_set_ne hji]
    exact hj

theorem mem_set_self (hp : ports[i]? = some p) : p' ∈ ports.set i p' := by
  have hlt := (List.getElem?_eq_some_iff.mp hp).1
  exact List.mem_set hlt p'

variable [DecidableEq U] (s s' : FirewallWatches U P)

theorem inWatched_iff : s.inWatched u = true ↔ ∃ k, s.watched = some k ∧ u ∈ s.sets.getD k [] := by
  unfold inWatched
  cases s.watched with
  | none => simp
  | some k => simp

/-- A watch of ports that stops is not of a unit of the set, or is not the unit's last. -/
theorem setPort_sound (h : FirewallSound s) (hp : s.ports[i]? = some p) (hunit : p'.unit = p.unit)
    (hfirst : p'.first = true → p'.stage ≠ .attached ∧ p'.stage ≠ .stopped)
    (hstop : p'.stage = .stopped → p.unit ∈ unitNames s.topology.node →
      s.inWatched p.unit = true → HasPorts s.calls (s.ports.eraseIdx i) p.unit) :
    FirewallSound (s.setPort i p') := by
  have hlength : (s.ports.set i p').length = s.ports.length := List.length_set
  refine ⟨h.topology, ?_, h.sets, fun q hq => ?_, h.exposed, fun k hk => ?_⟩
  · show CallsSound s.calls _ s.gone s.sets.length (s.ports.set i p').length
    rw [hlength]
    exact h.calls
  · cases List.mem_or_eq_of_mem_set hq with
    | inl hq => exact h.ports q hq
    | inr hq =>
      rw [hq]
      exact hfirst
  · have hexposes := h.exposes k hk
    refine ⟨hexposes.alive, hexposes.covers, fun u hu hin => ?_⟩
    by_cases hpu : p.unit = u
    · by_cases hstage : p'.stage = .stopped
      · apply hasPorts_set_of_erase s.calls s.ports i p' u
        rw [← hpu] at hu hin ⊢
        exact hstop hstage hin ((inWatched_iff p.unit s).mpr ⟨k, hk, hu⟩)
      · exact .inr ⟨p', mem_set_self s.ports i p p' hp, hunit.trans hpu, hstage⟩
    · exact hasPorts_set_of_ne s.calls s.ports i p p' u hp hpu (hexposes.ports u hu hin)

theorem checkPorts_sound (h : FirewallSound s) (hp : s.ports[i]? = some p)
    (hunit : p'.unit = p.unit) : FirewallSound (s.setPort i (s.checkPorts p')) := by
  unfold checkPorts
  split
  · apply setPort_sound i p { p' with stage := .opening .unit } s h hp hunit
    · exact fun _ => ⟨nofun, nofun⟩
    · exact fun hstopped => absurd hstopped nofun
  · rename_i hout
    rw [hunit] at hout
    apply setPort_sound i p { p' with first := false, stage := .stopped } s h hp hunit nofun
    exact fun _ _ hin => absurd hin hout

variable [DecidableEq P]

theorem readPorts_sound (next : Locating P) (h : FirewallSound s) (hp : s.ports[i]? = some p)
    (hstage : p.stage = .opening next) (hfine : s.Undisturbed (.readPorts i)) :
    FirewallSound (s.setPort i (s.readPorts p next)) := by
  unfold readPorts
  cases hread : next.read s.current p.unit with
  | goesOn next' =>
    apply setPort_sound i p { p with stage := .opening next' } s h hp rfl
    · exact fun _ => ⟨nofun, nofun⟩
    · exact fun hstopped => absurd hstopped nofun
  | found =>
    apply setPort_sound i p { p with first := false, stage := .attached } s h hp rfl nofun
    exact fun hstopped => absurd hstopped nofun
  | stateChanged =>
    apply setPort_sound i p { p with first := false, stage := .stopped } s h hp rfl nofun
    intro _ hin hwatched
    apply hfine p next hp hstage _ _ hwatched
    · rw [Vanished, hread]
      trivial
    · rw [current_units]
      exact hin

theorem portsGoOn_sound (e : FirewallEvent U P) (h : FirewallSound s) (hp : s.ports[i]? = some p)
    (hfine : ∀ j, e = .readPorts j → s.Undisturbed (.readPorts i))
    (hs : s.portsGoOn i p e = some s') : FirewallSound s' := by
  cases e with
  | startPorts j =>
    dsimp only [portsGoOn] at hs
    split at hs
    · obtain rfl := Option.some.inj hs
      exact checkPorts_sound i p p s h hp rfl
    · cases hs
  | invokePorts j =>
    dsimp only [portsGoOn] at hs
    split at hs
    · obtain ⟨-, hs⟩ := Option.ite_none_left_eq_some.mp hs
      obtain rfl := Option.some.inj hs
      exact checkPorts_sound i p { p with registered := true } s h hp rfl
    · cases hs
  | readPorts j =>
    dsimp only [portsGoOn] at hs
    split at hs
    · rename_i next hstage
      obtain rfl := Option.some.inj hs
      exact readPorts_sound i p s next h hp hstage (hfine j rfl)
    · cases hs
  | _ => cases hs

end ports

section runs

variable [DecidableEq U] [DecidableEq P] (s s' : FirewallWatches U P)

theorem callEvent_sound (r : Nat) (e : FirewallEvent U P) (h : FirewallSound s)
    (hs : (s.calls r).bind (fun call => s.callGoesOn r call e) = some s') : FirewallSound s' := by
  obtain ⟨call, hcall, hs⟩ := Option.bind_eq_some_iff.mp hs
  exact callGoesOn_sound s s' r call e h hcall hs

theorem portsEvent_sound (i : Nat) (e : FirewallEvent U P) (h : FirewallSound s)
    (hfine : ∀ j, e = .readPorts j → s.Undisturbed (.readPorts i))
    (hs : (s.ports[i]?).bind (fun p => s.portsGoOn i p e) = some s') : FirewallSound s' := by
  obtain ⟨p, hp, hs⟩ := Option.bind_eq_some_iff.mp hs
  exact portsGoOn_sound i p s s' e h hp hfine hs

theorem step_sound (e : FirewallEvent U P) (h : FirewallSound s) (hfine : s.Undisturbed e)
    (hs : s.step e = some s') : FirewallSound s' := by
  cases e with
  | setFlag exposed =>
    obtain rfl := Option.some.inj hs
    exact changeFlag_sound s exposed h
  | changeTopology t => exact changeTopology_sound s s' t h hs
  | changePorts u =>
    obtain rfl := Option.some.inj hs
    exact changePorts_sound s u h
  | invokeExposed =>
    dsimp only [step] at hs
    split at hs
    · rename_i hattached
      obtain ⟨-, hs⟩ := Option.ite_none_left_eq_some.mp hs
      obtain rfl := Option.some.inj hs
      exact invokeExposed_sound s h hattached
    · cases hs
  | exposedGoesOn => exact exposedGoesOn_sound s s' h hfine hs
  | existsReply r =>
    obtain ⟨w, hw, rfl⟩ := Option.map_eq_some_iff.mp hs
    exact existsReply_sound s r h w hw
  | getReply r => exact getReply_sound s s' r h hfine hs
  | fire r =>
    obtain ⟨w, hw, rfl⟩ := Option.map_eq_some_iff.mp hs
    exact fire_sound s r h w hw
  | discard r u => exact callEvent_sound s s' r _ h hs
  | watch r u => exact callEvent_sound s s' r _ h hs
  | find r => exact callEvent_sound s s' r _ h hs
  | goOn r => exact callEvent_sound s s' r _ h hs
  | endCall r => exact callEvent_sound s s' r _ h hs
  | startPorts i => exact portsEvent_sound s s' i (.startPorts i) h nofun hs
  | invokePorts i => exact portsEvent_sound s s' i (.invokePorts i) h nofun hs
  | readPorts i => exact portsEvent_sound s s' i (.readPorts i) h (fun _ _ => hfine) hs

omit [DecidableEq U] [DecidableEq P] in
theorem initial_sound (h : s.Initial) : FirewallSound s := by
  have hidle : ∀ r c v, s.topology.watches r ≠ .calling c v := by
    intro r c v
    rw [h.topology.watches r]
    exact nofun
  have hempty : ∀ k, s.sets.getD k [] = [] := by
    intro k
    rw [h.sets]
    rfl
  refine ⟨?_, fun r call hcall => ?_, fun k u hu => ?_, fun p hp => ?_, ?_, fun k hk => ?_⟩
  · constructor
    · exact h.connected
    · exact h.present
    · intro u _ hu
      rw [h.gone] at hu
      cases hu
    · rintro c (hc | ⟨r, v, hr⟩)
      · rw [h.topology.oldTopology] at hc
        cases hc
      · exact absurd hr (hidle r c v)
    · intro r
      rw [h.topology.watches r]
      trivial
    · intro r c hr
      rw [h.topology.returned] at hr
      cases hr
    · exact fun r _ => ⟨h.topology.watches r, h.topology.calls r⟩
    · intro r
      rw [h.calls r]
      refine ⟨nofun, ?_⟩
      rintro ⟨c, v, hr⟩
      exact absurd hr (hidle r c v)
  · rw [h.calls r] at hcall
    cases hcall
  · rw [hempty k] at hu
    cases hu
  · rw [h.ports] at hp
    cases hp
  · rw [h.exposed, h.flagRegistered, h.watched]
    exact ⟨nofun, nofun, nofun, nofun⟩
  · rw [h.watched] at hk
    cases hk

end runs

section quiescent

variable [DecidableEq U] [DecidableEq P] (s : FirewallWatches U P)

theorem quiescent_ports (hquiet : s.Quiescent) (p : PortWatch U P) (hp : p ∈ s.ports) :
    p.stage = .stopped ∨ p.stage = .attached ∧ p.registered = true := by
  obtain ⟨i, hi⟩ := List.mem_iff_getElem?.mp hp
  have hstart := hquiet (.startPorts i) rfl
  have hinvoke := hquiet (.invokePorts i) rfl
  have hread := hquiet (.readPorts i) rfl
  simp only [step, hi, Option.bind_some, portsGoOn] at hstart hinvoke hread
  cases hstage : p.stage with
  | starting =>
    rw [hstage] at hstart
    cases hstart
  | opening next =>
    rw [hstage] at hread
    cases hread
  | attached =>
    rw [hstage] at hinvoke
    refine .inr ⟨rfl, ?_⟩
    by_contra hregistered
    rw [if_neg hregistered] at hinvoke
    cases hinvoke
  | stopped => exact .inl rfl

/-- When no step of the agent is left every call has ended. -/
theorem quiescent_calls (h : FirewallSound s) (hquiet : s.Quiescent) (r : Nat) :
    s.calls r = none := by
  cases hcall : s.calls r with
  | none => rfl
  | some call =>
    have hstep : ∀ e, s.step e = (s.calls r).bind (fun call => s.callGoesOn r call e) →
        e.internal = true → s.callGoesOn r call e = none := by
      intro e he hinternal
      rw [hcall] at he
      exact he.symm.trans (hquiet e hinternal)
    cases hdoing : call.doing with
    | between =>
      cases hremoved : call.removed with
      | cons u us =>
        have hnone := hstep (.discard r u) rfl rfl
        simp [callGoesOn, hdoing, hremoved] at hnone
      | nil =>
        cases hadded : call.added with
        | cons u us =>
          have hnone := hstep (.watch r u) rfl rfl
          simp only [callGoesOn, hdoing, hremoved, hadded] at hnone
          rw [if_pos ⟨trivial, List.mem_cons_self⟩] at hnone
          split at hnone
          · cases hnone
          · cases hnone
        | nil =>
          have hsome : (s.calls r).isSome = true := by
            rw [hcall]
            rfl
          obtain ⟨c, v, hcalling⟩ := (h.topology.busy r).mp hsome
          have hnone := hstep (.endCall r) rfl rfl
          simp [callGoesOn, hdoing, hremoved, hadded, TopologyWatches.step, hcalling] at hnone
    | finding u =>
      have hnone := hstep (.find r) rfl rfl
      simp only [callGoesOn, hdoing] at hnone
      split at hnone
      · cases hnone
      · cases hnone
    | watching i =>
      have hlt := (h.calls r call hcall).2.2.2 i hdoing
      have hi := List.getElem?_eq_getElem hlt
      have hmem := List.mem_of_getElem? hi
      have hnone := hstep (.goOn r) rfl rfl
      simp only [callGoesOn, hdoing, hi, Option.map_some] at hnone
      by_cases hfirst : (s.ports[i]).first = true
      · obtain ⟨hattached, hstopped⟩ := h.ports _ hmem hfirst
        obtain hstage | ⟨hstage, -⟩ := quiescent_ports s hquiet _ hmem
        · exact absurd hstage hstopped
        · exact absurd hstage hattached
      · rw [if_pos (congrArg some (Bool.not_eq_true _ ▸ hfirst))] at hnone
        cases hnone

/-- The callback of the exposed flag has watched the units of the service. -/
theorem quiescent_watched (h : FirewallSound s) (hquiet : s.Quiescent) (hflag : s.flag = true) :
    ∃ k, s.watched = some k := by
  have hsome : s.watched ≠ none → ∃ k, s.watched = some k := Option.ne_none_iff_exists'.mp
  have hgoes := hquiet .exposedGoesOn rfl
  dsimp only [step] at hgoes
  cases hstage : s.exposed with
  | attached =>
    have hinvoke := hquiet .invokeExposed rfl
    simp only [step, hstage] at hinvoke
    have hregistered : s.flagRegistered = true := by
      by_contra hno
      rw [if_neg hno] at hinvoke
      cases hinvoke
    have hknown := h.exposed.heard hregistered
    rw [hstage] at hknown
    exact Option.isSome_iff_exists.mp (hknown.trans hflag)
  | listing exposed =>
    simp only [exposedGoesOn, hstage] at hgoes
    cases hgoes
  | opening exposed units next =>
    cases units with
    | cons u units =>
      simp only [exposedGoesOn, hstage] at hgoes
      cases hread : next.read s.current u with
      | goesOn next' =>
        rw [hread] at hgoes
        cases hgoes
      | found =>
        rw [hread] at hgoes
        cases hgoes
      | stateChanged =>
        rw [hread] at hgoes
        cases hgoes
    | nil =>
      have hfresh := (h.topology.fresh s.sets.length (Nat.le_refl _)).1
      cases exposed with
      | true => simp [exposedGoesOn, hstage, watchUnits, TopologyWatches.step, hfresh] at hgoes
      | false => simp [exposedGoesOn, hstage] at hgoes
  | watching r => exact ⟨r, (h.exposed.awaiting r hstage).1⟩
  | stopped => exact hsome (h.exposed.frozen hstage)

/-- The watch of the units that came with the set has seen the units as they are. -/
theorem quiescent_armed (h : FirewallSound s) (hquiet : s.Quiescent) (k : Nat)
    (hk : s.watched = some k) : s.topology.watches k = .armed s.topology.version := by
  have halive := (h.exposes k hk).alive
  have hwatch := h.topology.watch k
  have hexists := hquiet (.existsReply k) rfl
  have hget := hquiet (.getReply k) rfl
  have hfire := hquiet (.fire k) rfl
  obtain ⟨t, hnode⟩ := Option.ne_none_iff_exists'.mp h.topology.present
  cases hstate : s.topology.watches k with
  | checking => simp [step, TopologyWatches.step, hstate, hnode] at hexists
  | fetching =>
    simp only [step, getReply, TopologyWatches.step, hstate, hnode, Option.bind_some,
      call_watches s k t, Option.map_some] at hget
    split at hget
    · cases hget
    · rw [hk] at hget
      cases hget
  | calling c v =>
    have hsome := (h.topology.busy k).mpr ⟨c, v, hstate⟩
    rw [quiescent_calls s h hquiet k] at hsome
    cases hsome
  | armed v =>
    simp only [step, TopologyWatches.step, hstate] at hfire
    by_cases hv : v = s.topology.version
    · rw [hv]
    · rw [if_neg hv] at hfire
      cases hfire
  | _ =>
    rw [hstate] at halive
    exact halive.elim

/-- The service is watched, and each of its units has an attached watch of its ports. -/
theorem quiescent_attached (h : FirewallSound s) (hquiet : s.Quiescent) (hflag : s.flag = true)
    (u : U) (hu : u ∈ s.current.units) : s.inWatched u = true ∧
      ∃ p ∈ s.ports, p.unit = u ∧ p.stage = .attached ∧ p.registered = true := by
  obtain ⟨k, hk⟩ := quiescent_watched s h hquiet hflag
  have harmed := quiescent_armed s h hquiet k hk
  have hexposes := h.exposes k hk
  rw [current_units] at hu
  have hwaiting : ¬ Waiting s.exposed s.topology := by
    rintro ⟨r, hr, hlog⟩
    have hkr := Option.some.inj (hk.symm.trans (h.exposed.awaiting r hr).1)
    have hwatch := h.topology.watch k
    rw [harmed] at hwatch
    rw [← hkr] at hlog
    exact hwatch.2 hlog
  have hin : u ∈ s.sets.getD k [] := by
    cases (hexposes.covers hwaiting).armed k harmed u hu with
    | inl hin => exact hin
    | inr hadded =>
      obtain ⟨r, call, hcall, -, -⟩ := hadded
      rw [quiescent_calls s h hquiet r] at hcall
      cases hcall
  refine ⟨(inWatched_iff u s).mpr ⟨k, hk, hin⟩, ?_⟩
  cases hexposes.ports u hin hu with
  | inl hfinding =>
    obtain ⟨r, call, hcall, -⟩ := hfinding
    rw [quiescent_calls s h hquiet r] at hcall
    cases hcall
  | inr hports =>
    obtain ⟨p, hp, hunit, hstage⟩ := hports
    have hattached := (quiescent_ports s hquiet p hp).resolve_left hstage
    exact ⟨p, hp, hunit, hattached.1, hattached.2⟩

theorem opensOnChange_of_attached (u : U) (hin : s.inWatched u = true) (p : PortWatch U P)
    (hp : p ∈ s.ports) (hunit : p.unit = u) (hstage : p.stage = .attached) :
    s.OpensOnChange u := by
  obtain ⟨i, hi⟩ := List.mem_iff_getElem?.mp hp
  have hchanged : (s.changePorts u).ports[i]? = some { p with registered := false } := by
    simp [changePorts, hi, hunit]
  have hlt := (List.getElem?_eq_some_iff.mp hchanged).1
  let q : PortWatch U P := { p with registered := true }
  have hcheck : (s.changePorts u).checkPorts q = { q with stage := .opening .unit } := by
    have hwatched : (s.changePorts u).inWatched q.unit = true := by
      show s.inWatched p.unit = true
      rw [hunit]
      exact hin
    unfold checkPorts
    rw [if_pos hwatched]
  refine ⟨i, (s.changePorts u).setPort i ((s.changePorts u).checkPorts q),
    (s.changePorts u).checkPorts q, ?_, List.getElem?_set_self hlt, ?_, ?_⟩
  · simp only [step, hchanged, Option.bind_some, portsGoOn, hstage]
    rfl
  · rw [hcheck]
    exact hunit
  · rw [hcheck]

/-- When nothing vanishes under the firewall manager, and what the service state remembers does not
hide the units of a new exposure, its watches cover them whenever it has nothing left to do. -/
theorem exposed_units_watched (h : Reachable Initial step Undisturbed s) (hquiet : s.Quiescent) :
    s.Watched := by
  have hsound := reachable_invariant FirewallSound initial_sound
    (fun s s' e h hfine hs => step_sound s s' e h hfine hs) s h
  intro hflag u hu
  obtain ⟨hin, p, hp, hunit, hstage, -⟩ := quiescent_attached s hsound hquiet hflag u hu
  exact opensOnChange_of_attached s u hin p hp hunit hstage

/-- Nothing is left to do when every watch waits. -/
theorem quiescent_of_waiting (hexposed : s.exposed = .attached)
    (hregistered : s.flagRegistered = true) (hcalls : ∀ r, s.calls r = none)
    (hwatches : ∀ r, s.topology.watches r = .unregistered ∨
      s.topology.watches r = .armed s.topology.version)
    (hports : ∀ p ∈ s.ports, p.stage = .attached ∧ p.registered = true) : s.Quiescent := by
  have hcall : ∀ r e, (s.calls r).bind (fun call => s.callGoesOn r call e) = none := by
    intro r e
    rw [hcalls r]
    rfl
  have hport : ∀ i e, e = .startPorts i ∨ e = .invokePorts i ∨ e = .readPorts i →
      (s.ports[i]?).bind (fun p => s.portsGoOn i p e) = none := by
    intro i e he
    cases hp : s.ports[i]? with
    | none => rfl
    | some p =>
      obtain ⟨hstage, hregistered⟩ := hports p (List.mem_of_getElem? hp)
      obtain rfl | rfl | rfl := he
      all_goals simp [portsGoOn, hstage, hregistered]
  intro e he
  cases e with
  | setFlag exposed => cases he
  | changeTopology t => cases he
  | changePorts u => cases he
  | invokeExposed => simp [step, hexposed, hregistered]
  | exposedGoesOn => simp [step, exposedGoesOn, hexposed]
  | existsReply r =>
    obtain hr | hr := hwatches r
    all_goals simp [step, TopologyWatches.step, hr]
  | getReply r =>
    obtain hr | hr := hwatches r
    all_goals simp [step, getReply, TopologyWatches.step, hr]
  | fire r =>
    obtain hr | hr := hwatches r
    all_goals simp [step, TopologyWatches.step, hr]
  | discard r u => exact hcall r _
  | watch r u => exact hcall r _
  | find r => exact hcall r _
  | goOn r => exact hcall r _
  | endCall r => exact hcall r _
  | startPorts i => exact hport i _ (.inl rfl)
  | invokePorts i => exact hport i _ (.inr (.inl rfl))
  | readPorts i => exact hport i _ (.inr (.inr rfl))

end quiescent

section runsOfOneUnit

/-- A service with one unit on a machine of its own, and its flag set. -/
def oneUnit : FirewallWatches Nat Nat where
  flag := true
  topology := ⟨some ⟨[0], fun _ => true, fun _ => none, []⟩, 0, true, none, fun _ => .unregistered,
    fun _ => [], []⟩
  gone := []
  exposed := .attached
  flagRegistered := false
  watched := none
  sets := []
  calls := fun _ => none
  ports := []

theorem oneUnit_initial : oneUnit.Initial where
  topology := ⟨rfl, fun _ => rfl, fun _ => rfl, rfl⟩
  connected := rfl
  present := nofun
  gone := rfl
  exposed := rfl
  flagRegistered := rfl
  watched := rfl
  sets := rfl
  calls := fun _ => rfl
  ports := rfl

/-- The flag is seen, and the unit watched, without anything in the way. -/
theorem oneUnit_exposed : ∃ s : FirewallWatches Nat Nat,
    Reachable Initial step Undisturbed s ∧ s.Quiescent ∧ s.flag = true ∧
      s.current.units = [0] := by
  have hinvoked : Reachable Initial step Undisturbed _ :=
    .step _ _ .invokeExposed (.init oneUnit oneUnit_initial) trivial rfl
  have hlisted : Reachable Initial step Undisturbed _ :=
    .step _ _ .exposedGoesOn hinvoked (fun _ _ _ _ => nofun) rfl
  have hopened : Reachable Initial step Undisturbed _ :=
    .step _ _ .exposedGoesOn hlisted (fun _ _ _ _ hopening hvanished => by
      cases hopening
      exact False.elim hvanished) rfl
  have hwatched : Reachable Initial step Undisturbed _ :=
    .step _ _ .exposedGoesOn hopened (fun _ _ _ _ => nofun) rfl
  have hexists : Reachable Initial step Undisturbed _ :=
    .step _ _ (.existsReply 0) hwatched trivial rfl
  have hcalled : Reachable Initial step Undisturbed _ :=
    .step _ _ (.getReply 0) hexists (fun _ _ hsame => nomatch hsame.2 0 (.head _)) rfl
  have hfound : Reachable Initial step Undisturbed _ :=
    reachable_events [.watch 0 0, .find 0, .startPorts 0] (by simp [Undisturbed]) _ _ hcalled rfl
  have hread : Reachable Initial step Undisturbed _ :=
    .step _ _ (.readPorts 0) hfound (fun _ _ hp hstage hvanished => by
      cases hp
      cases hstage
      exact False.elim hvanished) rfl
  have hended : Reachable Initial step Undisturbed _ :=
    reachable_events [.goOn 0, .endCall 0] (by simp [Undisturbed]) _ _ hread rfl
  have hdone : Reachable Initial step Undisturbed _ :=
    .step _ _ .exposedGoesOn hended (fun _ _ _ _ => nofun) rfl
  refine ⟨_, hdone, quiescent_of_waiting _ rfl rfl ?_ ?_ ?_, rfl, rfl⟩
  · exact fun r => match r with | 0 => rfl | _ + 1 => rfl
  · exact fun r => match r with | 0 => .inr rfl | _ + 1 => .inl rfl
  · intro p hp
    obtain rfl := List.eq_of_mem_singleton hp
    exact ⟨rfl, rfl⟩

theorem exposed_units_watched_one : ∃ s : FirewallWatches Nat Nat,
    s.Quiescent ∧ s.flag = true ∧ s.current.units = [0] ∧ s.Watched := by
  obtain ⟨s, hreached, hquiet, hflag, hunits⟩ := oneUnit_exposed
  exact ⟨s, hquiet, hflag, hunits, exposed_units_watched s hreached hquiet⟩

/-- The service is exposed and its unit watched; it is unexposed, and exposed again. -/
def exposedAgain : List (FirewallEvent Nat Nat) :=
  [.invokeExposed, .exposedGoesOn, .exposedGoesOn, .exposedGoesOn, .existsReply 0, .getReply 0,
    .watch 0 0, .find 0, .startPorts 0, .readPorts 0, .goOn 0, .endCall 0, .exposedGoesOn,
    .setFlag false, .invokeExposed, .exposedGoesOn, .exposedGoesOn, .exposedGoesOn,
    .setFlag true, .invokeExposed, .exposedGoesOn, .exposedGoesOn, .exposedGoesOn,
    .existsReply 1, .getReply 1, .exposedGoesOn]

/-- The new set stays empty, since the service state remembers the same unit. -/
theorem exposed_again_unwatched : ∃ s : FirewallWatches Nat Nat,
    Reachable Initial step (fun _ _ => True) s ∧ s.Quiescent ∧ s.flag = true ∧
      0 ∈ s.current.units ∧ ¬ s.OpensOnChange 0 := by
  have hrun : Reachable Initial step (fun _ _ => True) _ :=
    reachable_stepAll (fun _ _ => trivial) exposedAgain oneUnit _ (.init oneUnit oneUnit_initial) rfl
  refine ⟨_, hrun, quiescent_of_waiting _ rfl rfl ?_ ?_ ?_, rfl, .head _, ?_⟩
  · exact fun r => match r with | 0 => rfl | 1 => rfl | _ + 2 => rfl
  · exact fun r => match r with | 0 => .inr rfl | 1 => .inr rfl | _ + 2 => .inl rfl
  · intro p hp
    obtain rfl := List.eq_of_mem_singleton hp
    exact ⟨rfl, rfl⟩
  · intro hopens
    obtain ⟨i, s', p, hs, hp, -, hstage⟩ := hopens
    cases i with
    | zero =>
      obtain rfl := Option.some.inj hs
      cases hp
      cases hstage
    | succ i => cases hs

end runsOfOneUnit

end Juju.State.FirewallWatches
