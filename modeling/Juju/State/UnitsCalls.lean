import Juju.State.PortWatches

namespace Juju.State.FirewallWatches
open Juju.Base

variable {U P : Type}

section calls

variable (sets sets' : List (List U)) (calls : Nat → Option (UnitsCall U))
  (ports ports' : List (PortWatch U P)) (r : Nat) (next : Option (UnitsCall U)) (k : Nat) (u : U)

/-- One call moves on, and what it had still to cover is covered otherwise. -/
theorem covered_update (hsets : u ∈ sets.getD k [] → u ∈ sets'.getD k [])
    (hself : ∀ call, calls r = some call → call.set = k → u ∈ call.added →
      Covered sets' (Function.update calls r next) k u)
    (h : Covered sets calls k u) : Covered sets' (Function.update calls r next) k u := by
  cases h with
  | inl hin => exact .inl (hsets hin)
  | inr hadded =>
    obtain ⟨q, call, hq, hset, hadded⟩ := hadded
    by_cases hqr : q = r
    · rw [hqr] at hq
      exact hself call hq hset hadded
    · refine .inr ⟨q, call, ?_, hset, hadded⟩
      rw [Function.update_of_ne hqr]
      exact hq

/-- One call moves on, and what it was about to watch is watched otherwise. -/
theorem hasPorts_update (hports : ∀ p ∈ ports, p ∈ ports')
    (hself : ∀ call, calls r = some call → call.doing = .finding u →
      HasPorts (Function.update calls r next) ports' u)
    (h : HasPorts calls ports u) : HasPorts (Function.update calls r next) ports' u := by
  cases h with
  | inl hfinding =>
    obtain ⟨q, call, hq, hdoing⟩ := hfinding
    by_cases hqr : q = r
    · rw [hqr] at hq
      exact hself call hq hdoing
    · refine .inl ⟨q, call, ?_, hdoing⟩
      rw [Function.update_of_ne hqr]
      exact hq
  | inr hwatched =>
    obtain ⟨p, hp, hunit, hstage⟩ := hwatched
    exact .inr ⟨p, hports p hp, hunit, hstage⟩

variable (s : FirewallWatches U P)

theorem setCall_self : (s.setCall r next).calls r = next := by
  simp [setCall]

theorem setCall_of_ne (q : Nat) (hq : q ≠ r) : (s.setCall r next).calls q = s.calls q := by
  simp [setCall, hq]

end calls

section reply

variable [DecidableEq U] [DecidableEq P] (s s' : FirewallWatches U P) (r : Nat)
  (new : ServiceTopology U P)

/-- The same units as the service state remembers are covered, unless a new exposure still waits
for the first call of another watch. -/
theorem sameUnits_covered (h : FirewallSound s) (hfine : s.Undisturbed (.getReply r))
    (hnode : s.topology.node = some new)
    (hsame : sameUnits (unitNames s.topology.oldTopology) new.units) (k : Nat)
    (hk : s.watched = some k)
    (hnot : ∀ q, q ≠ r → s.exposed = .watching q → s.topology.calls q ≠ []) :
    ∀ u ∈ new.units, Covered s.sets s.calls k u := by
  intro u hu
  have hunits : s.current.units = new.units := by
    rw [current_units, hnode]
    rfl
  by_cases hwaiting : Waiting s.exposed s.topology
  · obtain ⟨q, hq, hlog⟩ := hwaiting
    have hqr : q = r := by
      by_contra hne
      exact hnot q hne hq hlog
    have hwatched := (h.exposed.awaiting q hq).1
    have hkr : k = r := (Option.some.inj (hk.symm.trans hwatched)).trans hqr
    rw [hkr]
    rw [hqr] at hq hlog
    have hcovered := hfine hq hlog
    rw [hunits] at hcovered
    exact hcovered hsame u hu
  · have hcovers := (h.exposes k hk).covers hwaiting
    have hold := hsame.2 u hu
    have hin : u ∈ unitNames s.topology.node := by
      rw [hnode]
      exact hu
    cases hc : s.topology.oldTopology with
    | none =>
      rw [hc] at hold
      cases hold
    | some c =>
      rw [hc] at hold
      exact hcovers.remembered c (.inl hc) u hold hin

theorem getReply_sound (h : FirewallSound s) (hfine : s.Undisturbed (.getReply r))
    (hs : s.getReply r = some s') : FirewallSound s' := by
  obtain ⟨new, hnode, hfetching, hcases⟩ := getReply_cases s s' r h hs
  have hidle : s.calls r = none := by
    apply idle_call s r h
    rw [hfetching]
    exact nofun
  have hunits : unitNames s.topology.node = new.units := by
    rw [hnode]
    rfl
  have hwatches := call_watches_of_ne s r new
  have hlog := call_calls_of_ne s r new
  obtain ⟨hsame, rfl⟩ | ⟨hwatched, rfl⟩ | ⟨k, hwatched, rfl⟩ := hcases
  · have hself := watches_setWatch_self r (s.topology.call r new) (.armed s.topology.version)
    have hother : ∀ q, q ≠ r → ((s.topology.call r new).setWatch r
        (.armed s.topology.version)).watches q = s.topology.watches q := by
      intro q hq
      rw [watches_setWatch_of_ne r _ _ q hq]
      exact hwatches q hq
    refine ⟨?_, h.calls, h.sets, h.ports, h.exposed, fun k hk => ?_⟩
    · refine answered_topology s r new _ s.calls h hnode hfetching rfl rfl rfl hother rfl
        (.inl hself) (.inr rfl) (.inr rfl) ?_ ?_
      · rw [hidle]
        refine ⟨by simp, ?_⟩
        rintro ⟨c, v, hc⟩
        exact absurd (hself.symm.trans hc) (by simp)
      · exact fun _ _ => rfl
    · have hexposes := h.exposes k hk
      refine ⟨live_move r s.topology _ k hother ?_ hexposes.alive, fun hnot => ?_, hexposes.ports⟩
      · show Live (((s.topology.call r new).setWatch r (.armed s.topology.version)).watches r)
        rw [hself]
        trivial
      · apply coversUnits_all
        show ∀ u ∈ unitNames s.topology.node, _
        rw [hunits]
        apply sameUnits_covered s r new h hfine hnode hsame k hk
        intro q hq hwatching hempty
        exact hnot ⟨q, hwatching, (hlog q hq).trans hempty⟩
  · have hself := watches_setWatch_self r (s.topology.call r new) .stopped
    have hother : ∀ q, q ≠ r → ((s.topology.call r new).setWatch r .stopped).watches q =
        s.topology.watches q := by
      intro q hq
      rw [watches_setWatch_of_ne r _ _ q hq]
      exact hwatches q hq
    refine ⟨?_, h.calls, h.sets, h.ports, h.exposed, fun k hk => ?_⟩
    · refine answered_topology s r new _ s.calls h hnode hfetching rfl rfl rfl hother rfl
        (.inr (.inl hself)) (.inl rfl) (.inl rfl) ?_ ?_
      · rw [hidle]
        refine ⟨by simp, ?_⟩
        rintro ⟨c, v, hc⟩
        exact absurd (hself.symm.trans hc) (by simp)
      · exact fun _ _ => rfl
    · exact absurd (hwatched.symm.trans hk) (by simp)
  · have hself := call_watches s r new
    have hknown : ∀ u ∈ unitNames s.topology.oldTopology, Known new.units s.gone u := by
      intro u hu
      rw [← hunits]
      cases hc : s.topology.oldTopology with
      | none =>
        rw [hc] at hu
        cases hu
      | some c =>
        rw [hc] at hu
        exact h.topology.remembered c (.inl hc) u hu
    refine ⟨?_, ?_, h.sets, h.ports, h.exposed, fun j hj => ?_⟩
    · refine answered_topology s r new _ _ h hnode hfetching rfl rfl rfl hwatches rfl
        (.inr (.inr hself)) (.inl rfl) (.inl rfl) ?_ ?_
      · rw [setCall_self]
        exact ⟨fun _ => ⟨new, s.topology.version, hself⟩, fun _ => rfl⟩
      · exact setCall_of_ne r _ _
    · intro q call hcall
      by_cases hq : q = r
      · subst hq
        rw [setCall_self] at hcall
        cases hcall
        refine ⟨h.exposed.made k hwatched, fun u hu => ?_, fun u hu => ?_, nofun⟩
        · obtain ⟨hold, hout⟩ := List.mem_filter.mp hu
          exact (hknown u hold).resolve_left (by simpa using hout)
        · show Known (unitNames s.topology.node) s.gone u
          rw [hunits]
          exact .inl hu
      · rw [setCall_of_ne r _ _ q hq] at hcall
        exact h.calls q call hcall
    · obtain rfl := Option.some.inj (hwatched.symm.trans hj)
      have hexposes := h.exposes k hwatched
      refine ⟨live_move r s.topology _ k hwatches ?_ hexposes.alive, fun _ => ?_,
        fun u hu hin => ?_⟩
      · show Live ((s.topology.call r new).watches r)
        rw [hself]
        trivial
      · apply coversUnits_all
        show ∀ u ∈ unitNames s.topology.node, _
        rw [hunits]
        exact fun u hu => .inr ⟨r, _, setCall_self r _ _, rfl, hu⟩
      · apply hasPorts_update s.calls s.ports s.ports r _ u (fun _ hp => hp) _
          (hexposes.ports u hu hin)
        intro call hcall
        rw [hidle] at hcall
        cases hcall

end reply

section call

variable (s s' : FirewallWatches U P) (r : Nat) (call call' : UnitsCall U)

/-- The call under way is at `call'`, with the sets and the watches of ports as it leaves them. -/
theorem call_sound (sets : List (List U)) (ports : List (PortWatch U P)) (h : FirewallSound s)
    (hcall : s.calls r = some call) (hlength : sets.length = s.sets.length)
    (hports : ∀ p ∈ s.ports, p ∈ ports) (hmore : s.ports.length ≤ ports.length)
    (hsound : PortsSound ports)
    (hset : call'.set = call.set) (hremoved : ∀ u ∈ call'.removed, u ∈ call.removed)
    (hadded : ∀ u ∈ call'.added, u ∈ call.added)
    (hdoing : ∀ i, call'.doing = .watching i → i < ports.length)
    (hkept : ∀ k, ∀ u ∈ unitNames s.topology.node, u ∈ s.sets.getD k [] → u ∈ sets.getD k [])
    (hnew : ∀ k, ∀ u ∈ sets.getD k [], u ∈ s.sets.getD k [] ∨ u ∈ call.added ∧
      HasPorts (Function.update s.calls r (some call')) ports u)
    (hcovers : ∀ u ∈ call.added, u ∈ sets.getD call.set [] ∨ u ∈ call'.added)
    (hfinds : ∀ u ∈ unitNames s.topology.node, call.doing = .finding u →
      HasPorts (Function.update s.calls r (some call')) ports u) :
    FirewallSound (setCall { s with sets := sets, ports := ports } r (some call')) := by
  have hsome : (s.calls r).isSome = true := by
    rw [hcall]
    rfl
  obtain ⟨hin, hgone, hknown, _⟩ := h.calls r call hcall
  have hcovered : ∀ k, ∀ u ∈ unitNames s.topology.node, Covered s.sets s.calls k u →
      Covered sets (Function.update s.calls r (some call')) k u := by
    intro k u hu hbefore
    apply covered_update s.sets sets s.calls r _ k u (hkept k u hu) _ hbefore
    intro found hfound hk hadded
    obtain rfl := Option.some.inj (hcall.symm.trans hfound)
    rw [← hk]
    cases hcovers u hadded with
    | inl hin => exact .inl hin
    | inr hstill => exact .inr ⟨r, call', Function.update_self r _ s.calls, hset, hstill⟩
  refine ⟨?_, ?_, fun k u hu => ?_, hsound, ?_, fun k hk => ?_⟩
  · have htopology := topologySound_call s.topology s.gone s.calls s.sets.length r call'
      h.topology hsome
    rw [← hlength] at htopology
    exact htopology
  · intro q found hq
    show found.set < sets.length ∧ _
    rw [hlength]
    by_cases hqr : q = r
    · subst hqr
      rw [setCall_self] at hq
      cases hq
      rw [hset]
      exact ⟨hin, fun u hu => hgone u (hremoved u hu), fun u hu => hknown u (hadded u hu), hdoing⟩
    · rw [setCall_of_ne r _ _ q hqr] at hq
      obtain ⟨hin, hgone, hknown, hwatching⟩ := h.calls q found hq
      exact ⟨hin, hgone, hknown, fun i hi => Nat.lt_of_lt_of_le (hwatching i hi) hmore⟩
  · cases hnew k u hu with
    | inl hbefore => exact h.sets k u hbefore
    | inr hentered => exact hknown u hentered.1
  · have hexposed := h.exposed
    rw [← hlength] at hexposed
    exact hexposed
  · have hexposes := h.exposes k hk
    refine ⟨hexposes.alive, fun hnot => ?_, fun u hu hunit => ?_⟩
    · have hcovers := hexposes.covers hnot
      exact ⟨fun c hc u hu hunit => hcovered k u hunit (hcovers.remembered c hc u hu hunit),
        fun q hq u hu => hcovered k u hu (hcovers.armed q hq u hu)⟩
    · cases hnew k u hu with
      | inl hbefore =>
        apply hasPorts_update s.calls s.ports ports r _ u hports _ (hexposes.ports u hbefore hunit)
        intro found hfound hdoing
        obtain rfl := Option.some.inj (hcall.symm.trans hfound)
        exact hfinds u hunit hdoing
      | inr hentered => exact hentered.2

/-- A set that a call finds in `_watched_services` is changed in place. -/
theorem mem_modify (sets : List (List U)) (i k : Nat) (f : List U → List U) (u : U)
    (hi : i < sets.length) : u ∈ (sets.modify i f).getD k [] ↔
      u ∈ if i = k then f (sets.getD k []) else sets.getD k [] := by
  simp only [List.getD_eq_getElem?_getD, List.getElem?_modify]
  by_cases hk : i = k
  · subst hk
    have hget := List.getElem?_eq_getElem hi
    simp [hget]
  · simp [hk]

variable (u : U)

/-- A unit that is found has its watch of ports started. -/
theorem found_sound (h : FirewallSound s) (hcall : s.calls r = some call)
    (hfinding : call.doing = .finding u) :
    FirewallSound (setCall { s with ports := s.ports ++ [⟨u, true, true, .starting⟩] } r
      (some { call with doing := .watching s.ports.length })) := by
  let p : PortWatch U P := ⟨u, true, true, .starting⟩
  have hlength : (s.ports ++ [p]).length = s.ports.length + 1 := by simp
  apply call_sound s r call { call with doing := .watching s.ports.length } s.sets (s.ports ++ [p]) h
    hcall rfl (fun q hq => List.mem_append_left _ hq)
  · rw [hlength]
    exact Nat.le_succ _
  · intro q hq hfirst
    cases List.mem_append.mp hq with
    | inl hq => exact h.ports q hq hfirst
    | inr hq =>
      obtain rfl := List.mem_singleton.mp hq
      exact ⟨by simp, by simp⟩
  · rfl
  · exact fun v hv => hv
  · exact fun v hv => hv
  · intro i hi
    cases hi
    rw [hlength]
    exact Nat.lt_succ_self _
  · exact fun k v _ hv => hv
  · exact fun k v hv => .inl hv
  · exact fun v hv => .inr hv
  · intro v _ hv
    have hvu : v = u := (UnitsStep.finding.inj (hfinding.symm.trans hv)).symm
    rw [hvu]
    exact .inr ⟨_, List.mem_append_right _ List.mem_cons_self, rfl, nofun⟩

/-- The call comes to its next unit. -/
theorem between_sound (h : FirewallSound s) (hcall : s.calls r = some call)
    (hfinding : ∀ u, call.doing = .finding u → u ∉ unitNames s.topology.node) :
    FirewallSound (s.setCall r (some { call with doing := .between })) := by
  apply call_sound s r call { call with doing := .between } s.sets s.ports h hcall rfl
    (fun _ hp => hp) (Nat.le_refl _) h.ports rfl
  · exact fun v hv => hv
  · exact fun v hv => hv
  · intro i hi
    cases hi
  · exact fun k v _ hv => hv
  · exact fun k v hv => .inl hv
  · exact fun v hv => .inr hv
  · exact fun v hv hdoing => absurd hv (hfinding v hdoing)

/-- A call that has come to its last unit ends. -/
theorem ended_sound (w : TopologyWatches Nat (ServiceTopology U P)) (h : FirewallSound s)
    (hcall : s.calls r = some call) (hbetween : call.doing = .between) (hadded : call.added = [])
    (hw : s.topology.step (.callbackReturns r) = some w) :
    FirewallSound (setCall { s with topology := w } r none) := by
  have hsome : (s.calls r).isSome = true := by
    rw [hcall]
    rfl
  obtain ⟨c, v, hcalling⟩ := (h.topology.busy r).mp hsome
  have hwatch := h.topology.watch r
  rw [hcalling] at hwatch
  obtain ⟨hle, hcurrent, hlogged⟩ := hwatch
  simp only [TopologyWatches.step, hcalling] at hw
  obtain rfl := Option.some.inj hw
  have hself := watches_setWatch_self r s.topology (.armed v)
  have hother := watches_setWatch_of_ne r s.topology (.armed v)
  have hr : Remembered s.topology c := .inr ⟨r, v, hcalling⟩
  have hremembered : ∀ d, Remembered { s.topology.setWatch r (.armed v) with
      oldTopology := some c, returned := s.topology.returned ++ [(r, c)] } d →
      Remembered s.topology d := by
    rintro d (hd | ⟨q, n, hq⟩)
    · obtain rfl := Option.some.inj hd
      exact hr
    · by_cases hqr : q = r
      · rw [hqr] at hq
        exact absurd (hself.symm.trans hq) (by simp)
      · exact .inr ⟨q, n, (hother q hqr).symm.trans hq⟩
  have hcovered : ∀ k u, Covered s.sets s.calls k u →
      Covered s.sets (Function.update s.calls r none) k u := by
    intro k u hu
    apply covered_update s.sets s.sets s.calls r none k u (fun hin => hin) _ hu
    intro found hfound _ hin
    obtain rfl := Option.some.inj (hcall.symm.trans hfound)
    rw [hadded] at hin
    cases hin
  refine ⟨?_, fun q found hq => ?_, h.sets, h.ports, h.exposed, fun k hk => ?_⟩
  · refine topologySound_move s.topology _ s.gone s.calls _ s.sets.length _ r h.topology rfl rfl rfl
      hother (fun _ _ => rfl) (fun hne => hne) ?_ (fun d hd => .inl (hremembered d hd)) ?_
      (Nat.le_refl _) ?_ ?_ (setCall_of_ne r none _)
    · show WatchSound _ r ((s.topology.setWatch r (.armed v)).watches r)
      rw [hself]
      exact ⟨hle, hlogged⟩
    · intro q d hq
      cases List.mem_append.mp hq with
      | inl hq => exact .inl hq
      | inr hq =>
        cases List.mem_singleton.mp hq
        exact .inr hlogged
    · apply registered_lt s r h
      simp [hcalling]
    · rw [setCall_self]
      refine ⟨by simp, ?_⟩
      rintro ⟨d, n, hd⟩
      exact absurd (hself.symm.trans hd) (by simp)
  · by_cases hqr : q = r
    · rw [hqr, setCall_self] at hq
      cases hq
    · rw [setCall_of_ne r none _ q hqr] at hq
      exact h.calls q found hq
  · have hexposes := h.exposes k hk
    refine ⟨live_move r s.topology _ k hother ?_ hexposes.alive,
      fun hnot => ⟨fun d hd u hu hunit => ?_, fun q hq u hu => ?_⟩, fun u hu hunit => ?_⟩
    · show Live ((s.topology.setWatch r (.armed v)).watches r)
      rw [hself]
      trivial
    · exact hcovered k u ((hexposes.covers hnot).remembered d (hremembered d hd) u hu hunit)
    · by_cases hqr : q = r
      · rw [hqr] at hq
        have hv : v = s.topology.version := TopologyWatch.armed.inj (hself.symm.trans hq)
        have hunits : u ∈ unitNames s.topology.node := hu
        have hc : u ∈ c.units := by
          rw [hcurrent hv] at hunits
          exact hunits
        exact hcovered k u ((hexposes.covers hnot).remembered c hr u hc hu)
      · exact hcovered k u ((hexposes.covers hnot).armed q ((hother q hqr).symm.trans hq) u hu)
    · apply hasPorts_update s.calls s.ports s.ports r none u (fun _ hp => hp) _
        (hexposes.ports u hu hunit)
      intro found hfound hdoing
      obtain rfl := Option.some.inj (hcall.symm.trans hfound)
      exact absurd (hbetween.symm.trans hdoing) (by simp)

variable [DecidableEq U]

theorem discard_sound (h : FirewallSound s) (hcall : s.calls r = some call)
    (hbetween : call.doing = .between) (hu : u ∈ call.removed) :
    FirewallSound (setCall { s with sets := s.sets.modify call.set (List.filter (· ≠ u)) } r
      (some { call with removed := call.removed.filter (· ≠ u) })) := by
  obtain ⟨hset, hgone, -, -⟩ := h.calls r call hcall
  apply call_sound s r call { call with removed := call.removed.filter (· ≠ u) } _ s.ports h hcall
    (List.length_modify _ _ _) (fun _ hp => hp) (Nat.le_refl _) h.ports rfl
  · exact fun v hv => List.mem_of_mem_filter hv
  · exact fun v hv => hv
  · intro i hi
    exact absurd (hbetween.symm.trans hi) (by simp)
  · intro k v hv hin
    have hne : v ≠ u := by
      rintro rfl
      exact h.topology.never v hv (hgone v hu)
    rw [mem_modify s.sets call.set k _ v hset]
    split
    · exact List.mem_filter.mpr ⟨hin, by simpa using hne⟩
    · exact hin
  · intro k v hv
    rw [mem_modify s.sets call.set k _ v hset] at hv
    split at hv
    · exact .inl (List.mem_of_mem_filter hv)
    · exact .inl hv
  · exact fun v hv => .inr hv
  · intro v _ hv
    exact absurd (hbetween.symm.trans hv) (by simp)

/-- The unit is in the set already. -/
theorem watched_sound (h : FirewallSound s) (hcall : s.calls r = some call)
    (hbetween : call.doing = .between) (hin : u ∈ s.sets.getD call.set []) :
    FirewallSound (s.setCall r (some { call with added := call.added.filter (· ≠ u) })) := by
  apply call_sound s r call { call with added := call.added.filter (· ≠ u) } s.sets s.ports h hcall
    rfl (fun _ hp => hp) (Nat.le_refl _) h.ports rfl
  · exact fun v hv => hv
  · exact fun v hv => List.mem_of_mem_filter hv
  · intro i hi
    exact absurd (hbetween.symm.trans hi) (by simp)
  · exact fun k v _ hv => hv
  · exact fun k v hv => .inl hv
  · intro v hv
    by_cases hvu : v = u
    · rw [hvu]
      exact .inl hin
    · exact .inr (List.mem_filter.mpr ⟨hv, by simpa using hvu⟩)
  · intro v _ hv
    exact absurd (hbetween.symm.trans hv) (by simp)

/-- The unit enters the set. -/
theorem watch_sound (h : FirewallSound s) (hcall : s.calls r = some call)
    (hbetween : call.doing = .between) (hu : u ∈ call.added) :
    FirewallSound (setCall { s with sets := s.sets.modify call.set (u :: ·) } r
      (some { call with added := call.added.filter (· ≠ u), doing := .finding u })) := by
  have hset := (h.calls r call hcall).1
  apply call_sound s r call { call with added := call.added.filter (· ≠ u), doing := .finding u } _
    s.ports h hcall (List.length_modify _ _ _) (fun _ hp => hp) (Nat.le_refl _) h.ports rfl
  · exact fun v hv => hv
  · exact fun v hv => List.mem_of_mem_filter hv
  · intro i hi
    cases hi
  · intro k v _ hin
    rw [mem_modify s.sets call.set k _ v hset]
    split
    · exact List.mem_cons_of_mem u hin
    · exact hin
  · intro k v hv
    rw [mem_modify s.sets call.set k _ v hset] at hv
    split at hv
    · cases List.mem_cons.mp hv with
      | inl hvu =>
        rw [hvu]
        exact .inr ⟨hu, .inl ⟨r, _, Function.update_self r _ s.calls, rfl⟩⟩
      | inr hv => exact .inl hv
    · exact .inl hv
  · intro v hv
    by_cases hvu : v = u
    · refine .inl ?_
      rw [mem_modify s.sets call.set _ _ v hset, if_pos rfl, hvu]
      exact List.mem_cons_self
    · exact .inr (List.mem_filter.mpr ⟨hv, by simpa using hvu⟩)
  · intro v _ hv
    exact absurd (hbetween.symm.trans hv) (by simp)

theorem callGoesOn_sound [DecidableEq P] (e : FirewallEvent U P) (h : FirewallSound s)
    (hcall : s.calls r = some call) (hs : s.callGoesOn r call e = some s') : FirewallSound s' := by
  cases e with
  | discard q u =>
    dsimp only [callGoesOn] at hs
    split at hs
    · rename_i hbetween
      obtain ⟨hu, hs⟩ := Option.ite_none_right_eq_some.mp hs
      obtain rfl := Option.some.inj hs
      exact discard_sound s r call u h hcall hbetween hu
    · cases hs
  | watch q u =>
    dsimp only [callGoesOn] at hs
    split at hs
    · rename_i hbetween
      obtain ⟨⟨-, hu⟩, hs⟩ := Option.ite_none_right_eq_some.mp hs
      split at hs
      · rename_i hin
        obtain rfl := Option.some.inj hs
        exact watched_sound s r call u h hcall hbetween hin
      · obtain rfl := Option.some.inj hs
        exact watch_sound s r call u h hcall hbetween hu
    · cases hs
  | find q =>
    dsimp only [callGoesOn] at hs
    split at hs
    · rename_i u hfinding
      split at hs
      · obtain rfl := Option.some.inj hs
        exact found_sound s r call u h hcall hfinding
      · rename_i hout
        obtain rfl := Option.some.inj hs
        apply between_sound s r call h hcall
        intro v hv
        obtain rfl := UnitsStep.finding.inj (hfinding.symm.trans hv)
        rw [← current_units]
        exact hout
    · cases hs
  | goOn q =>
    dsimp only [callGoesOn] at hs
    split at hs
    · rename_i i hwatching
      obtain ⟨-, hs⟩ := Option.ite_none_right_eq_some.mp hs
      obtain rfl := Option.some.inj hs
      apply between_sound s r call h hcall
      exact fun v hv => absurd (hwatching.symm.trans hv) (by simp)
    · cases hs
  | endCall q =>
    dsimp only [callGoesOn] at hs
    split at hs
    · rename_i hbetween
      obtain ⟨⟨-, hadded⟩, hs⟩ := Option.ite_none_right_eq_some.mp hs
      obtain ⟨w, hw, rfl⟩ := Option.map_eq_some_iff.mp hs
      exact ended_sound s r call w h hcall hbetween hadded hw
    · cases hs
  | _ => cases hs

end call

end Juju.State.FirewallWatches
