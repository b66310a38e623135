import Juju.Base.Chains
import Juju.Base.Runs
import Mathlib.Logic.Function.Basic

namespace Juju.State
open Juju.Base

/-- How far a watch is that was registered with `_watch_topology`, for contents in `T`. -/
inductive TopologyWatch (T : Type) where
  | unregistered
  /-- The reply of `exists_and_watch` is to come. -/
  | checking
  /-- There was no node at a version. -/
  | absent (version : Nat)
  /-- The reply of `get_and_watch` is to come. -/
  | fetching
  /-- The callback runs, on a content read at a version. -/
  | calling (new : T) (version : Nat)
  | armed (version : Nat)
  | stopped

/-- The topology node with the number of its changes, and a state object with the watches that are
registered on it, named by `R`: the calls of each callback with what it was given, and all calls
that have returned, with what was new in them. -/
structure TopologyWatches (R T : Type) where
  node : Option T
  version : Nat
  connected : Bool
  oldTopology : Option T
  watches : R → TopologyWatch T
  calls : R → List (Option T × T)
  returned : List (R × T)

inductive TopologyWatchEvent (R T : Type) where
  | change (node : Option T)
  | disconnect
  | register (r : R)
  | existsReply (r : R)
  | getReply (r : R)
  | callbackReturns (r : R)
  /-- The callback raises `StopWatcher`, or an error that makes the watch bail out. -/
  | callbackStops (r : R)
  | fire (r : R)

variable {R T : Type} [DecidableEq R]

namespace TopologyWatches

def setWatch (s : TopologyWatches R T) (r : R) (watch : TopologyWatch T) : TopologyWatches R T :=
  { s with watches := Function.update s.watches r watch }

/-- `_watch_topology`, up to its first reply. -/
def watchTopology (s : TopologyWatches R T) (r : R) : TopologyWatches R T :=
  s.setWatch r (if s.connected then .checking else .stopped)

/-- `__topology_changed`, up to its first reply. -/
def topologyChanged (s : TopologyWatches R T) (r : R) : TopologyWatches R T :=
  s.setWatch r (if s.connected then .fetching else .stopped)

/-- The callback is called with the object's old topology and a new one. -/
def call (s : TopologyWatches R T) (r : R) (new : T) : TopologyWatches R T :=
  { s.setWatch r (.calling new s.version) with
    calls := Function.update s.calls r (s.calls r ++ [(s.oldTopology, new)]) }

def step (s : TopologyWatches R T) : TopologyWatchEvent R T → Option (TopologyWatches R T)
  | .change node => some { s with node := node, version := s.version + 1 }
  | .disconnect => some { s with connected := false }
  | .register r =>
    match s.watches r with
    | .unregistered => some (s.watchTopology r)
    | _ => none
  | .existsReply r =>
    match s.watches r with
    | .checking =>
      match s.node with
      | some _ => some (s.topologyChanged r)
      | none => some (s.setWatch r (.absent s.version))
    | _ => none
  | .getReply r =>
    match s.watches r with
    | .fetching =>
      match s.node with
      | none => some (s.watchTopology r)
      | some new => some (s.call r new)
    | _ => none
  | .callbackReturns r =>
    match s.watches r with
    | .calling new version => some { s.setWatch r (.armed version) with
        oldTopology := some new, returned := s.returned ++ [(r, new)] }
    | _ => none
  | .callbackStops r =>
    match s.watches r with
    | .calling _ _ => some (s.setWatch r .stopped)
    | _ => none
  | .fire r =>
    match s.watches r with
    | .absent version | .armed version =>
      if version = s.version then none else some (s.topologyChanged r)
    | _ => none

/-- A state object as it is constructed. -/
structure Initial (s : TopologyWatches R T) : Prop where
  oldTopology : s.oldTopology = none
  watches : ∀ r, s.watches r = .unregistered
  calls : ∀ r, s.calls r = []
  returned : s.returned = []

end TopologyWatches

/-- The new topology of the last call. -/
def lastSeen (calls : List (Option T × T)) : Option T := calls.getLast?.map Prod.snd

/-- Each call goes on from where the one before it ended, and the first from nothing. -/
def NoneLost (calls : List (Option T × T)) : Prop :=
  ChainFrom none (calls.map fun c => (c.1, some c.2)) (lastSeen calls)

/-- What a derived comparison of topologies, by `view`, makes of the calls. -/
def deltas {D : Type} [DecidableEq D] (view : Option T → D) (calls : List (Option T × T)) :
    List (D × D) :=
  (calls.map fun c => (view c.1, view (some c.2))).filter fun c => c.1 ≠ c.2

/-- A callback is called with what the last call to return has seen, of whatever watch of the
object; that is what the last call of its own has seen, or there is neither. -/
def OwnTurn (s : TopologyWatches R T) : TopologyWatchEvent R T → Prop
  | .getReply r => s.node ≠ none →
      s.returned.getLast?.map Prod.snd = lastSeen (s.calls r)
  | _ => True

section calls

variable (calls : List (Option T × T))

theorem lastSeen_snoc (c : Option T × T) : lastSeen (calls ++ [c]) = some c.2 := by
  simp [lastSeen]

theorem noneLost_nil : NoneLost ([] : List (Option T × T)) := rfl

theorem noneLost_snoc_iff (old : Option T) (new : T) (h : NoneLost calls) :
    NoneLost (calls ++ [(old, new)]) ↔ old = lastSeen calls := by
  unfold NoneLost
  rw [List.map_append, lastSeen_snoc, chainFrom_append]
  constructor
  · rintro ⟨m, hm, hold, -⟩
    have hend := chainFrom_last none m _ hm
    have hlast := chainFrom_last none (lastSeen calls) _ h
    exact hold.trans (hend.symm.trans hlast)
  · intro hold
    exact ⟨lastSeen calls, h, hold, rfl⟩

theorem noneLost_first (h : NoneLost calls) (c : Option T × T) (hc : calls.head? = some c) :
    c.1 = none := by
  cases calls with
  | nil => cases hc
  | cons first rest =>
    obtain rfl := Option.some.inj hc
    exact h.1

theorem noneLost_next (h : NoneLost calls) (before : List (Option T × T)) (c d : Option T × T)
    (after : List (Option T × T)) (hcalls : calls = before ++ c :: d :: after) : d.1 = some c.2 := by
  subst hcalls
  unfold NoneLost at h
  rw [List.map_append, List.map_cons, List.map_cons] at h
  exact chainFrom_adjacent none _ _ _ (c.1, some c.2) (d.1, some d.2) h

/-- What is seen through a comparison leads from nothing to the last that was seen. -/
theorem noneLost_deltas {D : Type} [DecidableEq D] (view : Option T → D) (h : NoneLost calls) :
    ChainFrom (view none) (deltas view calls) (view (lastSeen calls)) := by
  have hviewed := chainFrom_map view none (lastSeen calls) _ h
  rw [List.map_map] at hviewed
  exact chainFrom_filter _ _ _ hviewed

end calls

section steps

variable (s s' : TopologyWatches R T)

/-- What a step does to the calls and the old topology. -/
inductive StepEffect : TopologyWatchEvent R T → Prop
  | quiet (e : TopologyWatchEvent R T) : s'.calls = s.calls → s'.oldTopology = s.oldTopology →
      s'.returned = s.returned → (∀ r, e = .getReply r → s.node = none) → StepEffect e
  | called (r : R) (new : T) : s.node = some new → s' = s.call r new → StepEffect (.getReply r)
  | returned (r : R) (new : T) : s'.calls = s.calls → s'.oldTopology = some new →
      s'.returned = s.returned ++ [(r, new)] → StepEffect (.callbackReturns r)

theorem step_effect (e : TopologyWatchEvent R T) (hs : s.step e = some s') :
    StepEffect s s' e := by
  cases e with
  | change node =>
    obtain rfl := Option.some.inj hs
    exact .quiet _ rfl rfl rfl nofun
  | disconnect =>
    obtain rfl := Option.some.inj hs
    exact .quiet _ rfl rfl rfl nofun
  | register r =>
    dsimp only [TopologyWatches.step] at hs
    split at hs
    · obtain rfl := Option.some.inj hs
      exact .quiet _ rfl rfl rfl nofun
    · cases hs
  | existsReply r =>
    dsimp only [TopologyWatches.step] at hs
    split at hs
    · split at hs
      · obtain rfl := Option.some.inj hs
        exact .quiet _ rfl rfl rfl nofun
      · obtain rfl := Option.some.inj hs
        exact .quiet _ rfl rfl rfl nofun
    · cases hs
  | getReply r =>
    dsimp only [TopologyWatches.step] at hs
    split at hs
    · split at hs
      · rename_i hnode
        obtain rfl := Option.some.inj hs
        exact .quiet _ rfl rfl rfl fun _ _ => hnode
      · rename_i new hnode
        exact .called r new hnode (Option.some.inj hs).symm
    · cases hs
  | callbackReturns r =>
    dsimp only [TopologyWatches.step] at hs
    split at hs
    · obtain rfl := Option.some.inj hs
      exact .returned r _ rfl rfl rfl
    · cases hs
  | callbackStops r =>
    dsimp only [TopologyWatches.step] at hs
    split at hs
    · obtain rfl := Option.some.inj hs
      exact .quiet _ rfl rfl rfl nofun
    · cases hs
  | fire r =>
    dsimp only [TopologyWatches.step] at hs
    split at hs
    · split at hs
      · cases hs
      · obtain rfl := Option.some.inj hs
        exact .quiet _ rfl rfl rfl nofun
    · split at hs
      · cases hs
      · obtain rfl := Option.some.inj hs
        exact .quiet _ rfl rfl rfl nofun
    · cases hs

omit [DecidableEq R] in
/-- The old topology is what was new in the last call to return. -/
def Remembers : Prop := s.oldTopology = s.returned.getLast?.map Prod.snd

theorem step_remembers (e : TopologyWatchEvent R T) (h : Remembers s) (hs : s.step e = some s') :
    Remembers s' := by
  unfold Remembers at h ⊢
  cases step_effect s s' e hs with
  | quiet _ _ hold hreturned _ => rw [hold, hreturned, h]
  | called r new _ hs' =>
    subst hs'
    exact h
  | returned r new _ hold hreturned =>
    rw [hold, hreturned]
    simp

/-- A step loses none of what a watch sees just when it is the watch's own turn. -/
theorem step_noneLost_iff (e : TopologyWatchEvent R T) (hremembers : Remembers s)
    (h : ∀ r, NoneLost (s.calls r)) (hs : s.step e = some s') :
    (∀ r, NoneLost (s'.calls r)) ↔ OwnTurn s e := by
  cases step_effect s s' e hs with
  | quiet _ hcalls _ _ hnode =>
    rw [hcalls]
    refine ⟨fun _ => ?_, fun _ => h⟩
    cases e with
    | getReply r => exact fun hsome => absurd (hnode r rfl) hsome
    | _ => trivial
  | returned r new hcalls _ _ =>
    rw [hcalls]
    exact ⟨fun _ => trivial, fun _ => h⟩
  | called r new hnode hs' =>
    have hsome : s.node ≠ none := by
      rw [hnode]
      nofun
    have hown : s'.calls r = s.calls r ++ [(s.oldTopology, new)] := by
      simp [hs', TopologyWatches.call]
    have hother (r' : R) (hr : r' ≠ r) : s'.calls r' = s.calls r' := by
      simp [hs', TopologyWatches.call, TopologyWatches.setWatch, hr]
    have hlast := noneLost_snoc_iff (s.calls r) s.oldTopology new (h r)
    unfold OwnTurn
    rw [← hremembers]
    constructor
    · intro hall _
      have hcalled := hall r
      rw [hown] at hcalled
      exact hlast.mp hcalled
    · intro hturn r'
      by_cases hr : r' = r
      · rw [hr, hown]
        exact hlast.mpr (hturn hsome)
      · rw [hother r' hr]
        exact h r'

end steps

/-- Watches lose no change as long as each call comes at its watch's own turn: a first call is
given nothing, a later one what the call before it has seen, and what is seen through any
comparison leads from nothing to what was seen last; and only a call out of turn loses one. -/
theorem topology_watches_lose_none (s : TopologyWatches R T)
    (h : Reachable TopologyWatches.Initial TopologyWatches.step OwnTurn s) :
    (∀ r, (∀ c, (s.calls r).head? = some c → c.1 = none) ∧
      (∀ before c d after, s.calls r = before ++ c :: d :: after → d.1 = some c.2) ∧
      ∀ (D : Type) [DecidableEq D] (view : Option T → D),
        ChainFrom (view none) (deltas view (s.calls r)) (view (lastSeen (s.calls r)))) ∧
    ∀ e s', s.step e = some s' → ((∀ r, NoneLost (s'.calls r)) ↔ OwnTurn s e) := by
  have hinv := reachable_invariant
    (fun s : TopologyWatches R T => Remembers s ∧ ∀ r, NoneLost (s.calls r))
    (fun s hinit => by
      refine ⟨?_, fun r => ?_⟩
      · rw [Remembers, hinit.oldTopology, hinit.returned]
        rfl
      · rw [hinit.calls r]
        exact noneLost_nil)
    (fun s s' e hi he hs => ⟨step_remembers s s' e hi.1 hs,
      (step_noneLost_iff s s' e hi.1 hi.2 hs).mpr he⟩) s h
  refine ⟨fun r => ⟨?_, ?_, ?_⟩, fun e s' hs => step_noneLost_iff s s' e hinv.1 hinv.2 hs⟩
  · exact noneLost_first _ (hinv.2 r)
  · exact noneLost_next _ (hinv.2 r)
  · exact fun D _ view => noneLost_deltas _ view (hinv.2 r)

/-- A state object of a topology that is there, contents being the machines. -/
def watchedObject : TopologyWatches Bool (List Nat) :=
  ⟨some [0], 0, true, none, fun _ => .unregistered, fun _ => [], []⟩

theorem watchedObject_initial : watchedObject.Initial := ⟨rfl, fun _ => rfl, fun _ => rfl, rfl⟩

theorem topology_watches_lose_none_twice :
    ∃ s : TopologyWatches Bool (List Nat), s.calls false = [(none, [0]), (some [0], [0, 1])] ∧
      ChainFrom ((none : Option (List Nat)).map List.length)
        (deltas (Option.map List.length) (s.calls false)) (some 2) := by
  have hregistered : Reachable TopologyWatches.Initial TopologyWatches.step OwnTurn _ :=
    .step watchedObject _ (TopologyWatchEvent.register false) (.init _ watchedObject_initial)
      trivial rfl
  have hexists : Reachable TopologyWatches.Initial TopologyWatches.step OwnTurn _ :=
    .step _ _ (TopologyWatchEvent.existsReply false) hregistered trivial rfl
  have hcalled : Reachable TopologyWatches.Initial TopologyWatches.step OwnTurn _ :=
    .step _ _ (TopologyWatchEvent.getReply false) hexists (fun _ => rfl) rfl
  have hreturned : Reachable TopologyWatches.Initial TopologyWatches.step OwnTurn _ :=
    .step _ _ (TopologyWatchEvent.callbackReturns false) hcalled trivial rfl
  have hchanged : Reachable TopologyWatches.Initial TopologyWatches.step OwnTurn _ :=
    .step _ _ (TopologyWatchEvent.change (some [0, 1])) hreturned trivial rfl
  have hfired : Reachable TopologyWatches.Initial TopologyWatches.step OwnTurn _ :=
    .step _ _ (TopologyWatchEvent.fire false) hchanged trivial rfl
  have hagain : Reachable TopologyWatches.Initial TopologyWatches.step OwnTurn _ :=
    .step _ _ (TopologyWatchEvent.getReply false) hfired (fun _ => rfl) rfl
  exact ⟨_, rfl, ((topology_watches_lose_none _ hagain).1 false).2.2 _ (Option.map List.length)⟩

/-- A second watch is told of no change, as the first has seen what is there. -/
theorem second_watch_misses :
    ∃ s : TopologyWatches Bool (List Nat),
      Reachable TopologyWatches.Initial TopologyWatches.step (fun _ _ => True) s ∧
      s.calls true = [(some [0], [0])] := by
  let events : List (TopologyWatchEvent Bool (List Nat)) :=
    [.register false, .existsReply false, .getReply false, .callbackReturns false, .register true,
      .existsReply true, .getReply true]
  have hrun : Reachable TopologyWatches.Initial TopologyWatches.step
      (fun (_ : TopologyWatches Bool (List Nat)) _ => True) _ :=
    reachable_stepAll (fun _ _ => trivial) events watchedObject _ (.init _ watchedObject_initial) rfl
  exact ⟨_, hrun, rfl⟩

end Juju.State
