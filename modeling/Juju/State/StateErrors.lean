import Juju.State.ManagerRuns

namespace Juju.State
open Juju.Base

def CallState.parts : CallState → List CallPart
  | .running ps _ => ps
  | _ => []

/-- The ids that a call is about to bring in. -/
def CallState.pending (call : CallState) : List (NodeKind × String) :=
  call.parts.filterMap CallPart.creates

theorem goOn_parts (ps : List CallPart) : (goOn ps).parts = ps := by
  cases ps <;> rfl

theorem goOn_pending (ps : List CallPart) :
    (goOn ps).pending = ps.filterMap CallPart.creates := by
  rw [CallState.pending, goOn_parts]

theorem goOn_ne_error (ps : List CallPart) (e : ManagerError) : goOn ps ≠ .ended (.error e) := by
  cases ps <;> simp [goOn]

theorem goOn_ne_evaluated (ps qs : List CallPart) (x : Nat × InternalTopology) :
    goOn ps ≠ .running qs (some x) := by
  cases ps <;> simp [goOn]

variable {C : Type} [DecidableEq C]

/-- What a reply does to the call `c`, which stands at `part`. -/
inductive Turned (s : StateManagers C) (c : C) :
    CallPart → List CallPart → Option (Nat × InternalTopology) → Reply → StateManagers C → Prop
  | nodesRead (rest evaluated) :
      Turned s c .nodes rest evaluated (.nodes none) (s.setCall c (goOn rest))
  | nodesFail (rest evaluated) (e : NodeError) :
      Turned s c .nodes rest evaluated (.nodes (some e)) (s.setCall c (.ended (.error (.node e))))
  | validated (rest evaluated) (principalSubordinate subordinate : Except NodeError Bool)
      (hvalid : validatePrincipalContainer principalSubordinate subordinate = .ok ()) :
      Turned s c .validatePrincipalContainer rest evaluated
        (.validated principalSubordinate subordinate) (s.setCall c (goOn rest))
  | validateFail (rest evaluated) (principalSubordinate subordinate : Except NodeError Bool)
      (e : ManagerError)
      (hvalid : validatePrincipalContainer principalSubordinate subordinate = .error e) :
      Turned s c .validatePrincipalContainer rest evaluated
        (.validated principalSubordinate subordinate) (s.setCall c (.ended (.error e)))
  | created (rest evaluated) (creation : Creation) (id : String)
      (hnew : (creation.kind, id) ∉ s.created) :
      Turned s c (.create creation) rest evaluated (.created id)
        ({ s with created := (creation.kind, id) :: s.created }.setCall c
          (goOn (creation.next id ++ rest)))
  | read (rest evaluated) (r : TopologyRead) (parts : List CallPart)
      (hrun : r.run s.topology = .ok parts) :
      Turned s c (.read r) rest evaluated .topologyRead (s.setCall c (goOn (parts ++ rest)))
  | readFail (rest evaluated) (r : TopologyRead) (e : ManagerError)
      (hrun : r.run s.topology = .error e) :
      Turned s c (.read r) rest evaluated .topologyRead (s.setCall c (.ended (.error e)))
  | evaluated (rest) (change : TopologyChange) (satisfies : String → Except NodeError Bool)
      (t : InternalTopology) (hrun : change.run satisfies s.topology = .ok () t) :
      Turned s c (.change change) rest none (.changeEvaluated satisfies)
        (s.setCall c (.running (.change change :: rest) (some (s.version, t))))
  | evaluateFail (rest) (change : TopologyChange) (satisfies : String → Except NodeError Bool)
      (e : ManagerError) (t : InternalTopology)
      (hrun : change.run satisfies s.topology = .error e t) :
      Turned s c (.change change) rest none (.changeEvaluated satisfies)
        (s.setCall c (.ended (.error e)))
  | set (rest) (change : TopologyChange) (t : InternalTopology) :
      Turned s c (.change change) rest (some (s.version, t)) .contentSet
        ({ s with topology := t, version := s.version + 1 }.setCall c (goOn rest))
  | conflict (rest) (change : TopologyChange) (version : Nat) (t : InternalTopology)
      (hversion : version ≠ s.version) :
      Turned s c (.change change) rest (some (version, t)) .contentSet
        (s.setCall c (.running (.change change :: rest) none))

theorem reply_turned (s s' : StateManagers C) (c : C) (part : CallPart) (rest : List CallPart)
    (evaluated : Option (Nat × InternalTopology)) (r : Reply)
    (hs : s.reply c part rest evaluated r = some s') : Turned s c part rest evaluated r s' := by
  cases r with
  | nodes error =>
    simp only [StateManagers.reply] at hs
    split at hs
    · obtain rfl := Option.some.inj hs
      exact .nodesRead rest evaluated
    · obtain rfl := Option.some.inj hs
      exact .nodesFail rest evaluated _
    · cases hs
  | validated principalSubordinate subordinate =>
    simp only [StateManagers.reply] at hs
    split at hs
    · split at hs
      · obtain rfl := Option.some.inj hs
        exact .validated rest evaluated _ _ ‹_›
      · obtain rfl := Option.some.inj hs
        exact .validateFail rest evaluated _ _ _ ‹_›
    · cases hs
  | created id =>
    simp only [StateManagers.reply] at hs
    split at hs
    · split at hs
      · cases hs
      · obtain rfl := Option.some.inj hs
        exact .created rest evaluated _ id ‹_›
    · cases hs
  | topologyRead =>
    simp only [StateManagers.reply] at hs
    split at hs
    · split at hs
      · obtain rfl := Option.some.inj hs
        exact .readFail rest evaluated _ _ ‹_›
      · obtain rfl := Option.some.inj hs
        exact .read rest evaluated _ _ ‹_›
    · cases hs
  | changeEvaluated satisfies =>
    simp only [StateManagers.reply] at hs
    split at hs
    · split at hs
      · obtain rfl := Option.some.inj hs
        exact .evaluateFail rest _ satisfies _ _ ‹_›
      · obtain rfl := Option.some.inj hs
        exact .evaluated rest _ satisfies _ ‹_›
    · cases hs
  | contentSet =>
    simp only [StateManagers.reply] at hs
    split at hs
    · split at hs
      · obtain rfl := Option.some.inj hs
        rename_i hversion
        subst hversion
        exact .set rest _ _
      · obtain rfl := Option.some.inj hs
        exact .conflict rest _ _ _ ‹_›
    · cases hs

theorem validate_documented (principalSubordinate subordinate : Except NodeError Bool)
    (hguarded : principalSubordinate = .ok false → subordinate ≠ .ok false) (e : ManagerError)
    (he : validatePrincipalContainer principalSubordinate subordinate = .error e) :
    e.Documented := by
  unfold validatePrincipalContainer at he
  split at he
  · cases he
    simp [ManagerError.Documented]
  · cases he
    simp [ManagerError.Documented]
  · split at he
    · cases he
      simp [ManagerError.Documented]
    · cases he
    · exact absurd rfl (hguarded rfl)

theorem parts_ne_attributeError (call : ManagerCall) : call.parts ≠ .error .attributeError := by
  intro h
  cases call with
  | addMachineState complete => cases complete <;> cases h
  | addRelationState endpoints =>
    simp only [ManagerCall.parts] at h
    split at h
    · cases h
    · cases h
  | _ => cases h

/-- What is read and what is evaluated is covered, and a unit is not added in a principal's
container to a service that is no subordinate. -/
def Guarded (s : StateManagers C) : ManagerEvent C → Prop
  | .reply _ (.validated principalSubordinate subordinate) =>
    principalSubordinate = .ok false → subordinate ≠ .ok false
  | .reply c .topologyRead => ∀ r rest evaluated,
      s.calls c = .running (.read r :: rest) evaluated → r.Covered s.topology
  | .reply c (.changeEvaluated satisfies) => ∀ change rest,
      s.calls c = .running (.change change :: rest) none → change.Covered satisfies s.topology
  | _ => True

/-- The topology is sound, no id is brought in twice, and what a call would set over the present
version is its change of the present topology. -/
structure ManagersInv (s : StateManagers C) : Prop where
  integrity : Integrity s.topology
  named : ∀ kind id, s.topology.Names kind id → (kind, id) ∈ s.created
  pendingNew : ∀ c, ∀ k ∈ (s.calls c).pending, k ∈ s.created ∧ Unnamed k.1 k.2 s.topology
  pendingOnce : ∀ c, (s.calls c).pending.Nodup
  pendingApart : ∀ c c', c ≠ c' → ∀ k ∈ (s.calls c).pending, k ∉ (s.calls c').pending
  evaluated : ∀ c part rest v t, s.calls c = .running (part :: rest) (some (v, t)) →
    v ≤ s.version ∧ (v = s.version → ∃ change satisfies, part = .change change ∧
      change.run satisfies s.topology = .ok () t)
  documented : ∀ c e, s.calls c = .ended (.error e) → e.Documented

section step

variable {s : StateManagers C} (h : ManagersInv s) (c : C)
include h

/-- A call that goes on without a write, bringing in nothing more. -/
theorem setCall_inv (call : CallState) (hpending : call.pending.Sublist (s.calls c).pending)
    (hevaluated : ∀ part rest v t, call = .running (part :: rest) (some (v, t)) →
      v ≤ s.version ∧ (v = s.version → ∃ change satisfies, part = .change change ∧
        change.run satisfies s.topology = .ok () t))
    (hdocumented : ∀ e, call = .ended (.error e) → e.Documented) :
    ManagersInv (s.setCall c call) := by
  have hsub (d : C) :
      (Function.update s.calls c call d).pending.Sublist (s.calls d).pending := by
    rw [Function.update_apply]
    split
    · subst ‹d = c›
      exact hpending
    · exact List.Sublist.refl _
  refine ⟨h.integrity, h.named, ?_, ?_, ?_, ?_, ?_⟩
  · exact fun d k hk => h.pendingNew d k ((hsub d).subset hk)
  · exact fun d => (h.pendingOnce d).sublist (hsub d)
  · exact fun d d' hne k hk hk' =>
      h.pendingApart d d' hne k ((hsub d).subset hk) ((hsub d').subset hk')
  · intro d part rest v t hd
    simp only [StateManagers.setCall, Function.update_apply] at hd
    split at hd
    · exact hevaluated part rest v t hd
    · exact h.evaluated d part rest v t hd
  · intro d e hd
    simp only [StateManagers.setCall, Function.update_apply] at hd
    split at hd
    · exact hdocumented e hd
    · exact h.documented d e hd

theorem goOn_inv (ps : List CallPart)
    (hpending : (ps.filterMap CallPart.creates).Sublist (s.calls c).pending) :
    ManagersInv (s.setCall c (goOn ps)) :=
  setCall_inv h c _ (by rwa [goOn_pending])
    (fun part rest v t hgo => absurd hgo (goOn_ne_evaluated ps _ _))
    (fun e hgo => absurd hgo (goOn_ne_error ps e))

theorem failed_inv (e : ManagerError) (he : e.Documented) :
    ManagersInv (s.setCall c (.ended (.error e))) :=
  setCall_inv h c _ (List.nil_sublist _) (fun _ _ _ _ hgo => by cases hgo)
    (fun e' hgo => by cases hgo; exact he)

/-- A node created gives a call an id that is neither known nor about to be. -/
theorem created_inv (creation : Creation) (id : String) (rest : List CallPart)
    (hnew : (creation.kind, id) ∉ s.created)
    (hrest : (rest.filterMap CallPart.creates).Sublist (s.calls c).pending) :
    ManagersInv ({ s with created := (creation.kind, id) :: s.created }.setCall c
      (goOn (creation.next id ++ rest))) := by
  have hpending : (goOn (creation.next id ++ rest)).pending =
      (creation.kind, id) :: rest.filterMap CallPart.creates := by
    rw [goOn_pending, List.filterMap_append, creation_creates]
    rfl
  have hunnamed : Unnamed creation.kind id s.topology := fun hnamed => hnew (h.named _ _ hnamed)
  have hold (d : C) : (creation.kind, id) ∉ (s.calls d).pending :=
    fun hk => hnew (h.pendingNew d _ hk).1
  have hmem (d : C) (k : NodeKind × String)
      (hk : k ∈ (Function.update s.calls c (goOn (creation.next id ++ rest)) d).pending) :
      (d = c ∧ k = (creation.kind, id)) ∨ k ∈ (s.calls d).pending := by
    rw [Function.update_apply] at hk
    split at hk
    · subst ‹d = c›
      rw [hpending] at hk
      rcases List.mem_cons.mp hk with rfl | hk
      · exact Or.inl ⟨rfl, rfl⟩
      · exact Or.inr (hrest.subset hk)
    · exact Or.inr hk
  refine ⟨h.integrity, fun kind id' hn => List.mem_cons_of_mem _ (h.named kind id' hn),
    ?_, ?_, ?_, ?_, ?_⟩
  · intro d k hk
    rcases hmem d k hk with ⟨-, rfl⟩ | hk
    · exact ⟨List.mem_cons_self, hunnamed⟩
    · exact ⟨List.mem_cons_of_mem _ (h.pendingNew d k hk).1, (h.pendingNew d k hk).2⟩
  · intro d
    simp only [StateManagers.setCall, Function.update_apply]
    split
    · rw [hpending, List.nodup_cons]
      exact ⟨fun hk => hold c (hrest.subset hk), (h.pendingOnce c).sublist hrest⟩
    · exact h.pendingOnce d
  · intro d d' hne k hk hk'
    rcases hmem d k hk with ⟨hd, hkd⟩ | hkd <;> rcases hmem d' k hk' with ⟨hd', hkd'⟩ | hkd'
    · exact hne (hd.trans hd'.symm)
    · exact hold d' (hkd ▸ hkd')
    · exact hold d (hkd' ▸ hkd)
    · exact h.pendingApart d d' hne k hkd hkd'
  · intro d part rest' v t hd
    simp only [StateManagers.setCall, Function.update_apply] at hd
    split at hd
    · exact absurd hd (goOn_ne_evaluated _ _ _)
    · exact h.evaluated d part rest' v t hd
  · intro d e hd
    simp only [StateManagers.setCall, Function.update_apply] at hd
    split at hd
    · exact absurd hd (goOn_ne_error _ e)
    · exact h.documented d e hd

/-- A change set over the version that it was evaluated on. -/
theorem set_inv (change : TopologyChange) (rest : List CallPart) (t : InternalTopology)
    (hc : s.calls c = .running (.change change :: rest) (some (s.version, t))) :
    ManagersInv ({ s with topology := t, version := s.version + 1 }.setCall c (goOn rest)) := by
  obtain ⟨-, hrun⟩ := h.evaluated c _ _ _ _ hc
  obtain ⟨_, satisfies, heq, hrun⟩ := hrun rfl
  cases heq
  have hkept (kind : NodeKind) (id : String) (hother : change.creates ≠ some (kind, id))
      (hunnamed : Unnamed kind id s.topology) : Unnamed kind id t := by
    have hkeeps := change_unnamed satisfies change kind id hother s.topology hunnamed
    rwa [hrun] at hkeeps
  have hpending : (s.calls c).pending =
      change.creates.toList ++ rest.filterMap CallPart.creates := by
    have hpart : (CallPart.change change).creates = change.creates := rfl
    rw [hc, CallState.pending, CallState.parts, List.filterMap_cons, hpart]
    cases change.creates <;> rfl
  have hown (k : NodeKind × String) (hk : change.creates = some k) :
      k ∈ (s.calls c).pending := by
    rw [hpending, hk]
    exact List.mem_append_left _ (by simp)
  have hsub (d : C) : (Function.update s.calls c (goOn rest) d).pending.Sublist
      (s.calls d).pending := by
    rw [Function.update_apply]
    split
    · subst ‹d = c›
      rw [goOn_pending, hpending]
      exact List.sublist_append_right _ _
    · exact List.Sublist.refl _
  refine ⟨?_, ?_, ?_, ?_, ?_, ?_, ?_⟩
  · have hkeeps := change_integrity satisfies change s.topology h.integrity
    rwa [hrun] at hkeeps
  · intro kind id hnamed
    by_cases hk : change.creates = some (kind, id)
    · exact (h.pendingNew c _ (hown _ hk)).1
    · by_contra hnot
      exact hkept kind id hk (fun hn => hnot (h.named kind id hn)) hnamed
  · intro d k hk
    have hold := h.pendingNew d k ((hsub d).subset hk)
    refine ⟨hold.1, hkept k.1 k.2 (fun hcreates => ?_) hold.2⟩
    by_cases hd : d = c
    · subst hd
      simp only [StateManagers.setCall, Function.update_self, goOn_pending] at hk
      have honce := h.pendingOnce d
      rw [hpending, hcreates] at honce
      exact (List.nodup_cons.mp honce).1 hk
    · exact h.pendingApart d c hd k ((hsub d).subset hk) (hown k hcreates)
  · exact fun d => (h.pendingOnce d).sublist (hsub d)
  · exact fun d d' hne k hk hk' =>
      h.pendingApart d d' hne k ((hsub d).subset hk) ((hsub d').subset hk')
  · intro d part rest' v t' hd
    simp only [StateManagers.setCall, Function.update_apply] at hd
    split at hd
    · exact absurd hd (goOn_ne_evaluated _ _ _)
    · have hle := (h.evaluated d part rest' v t' hd).1
      exact ⟨Nat.le_succ_of_le hle, fun heq => absurd (heq ▸ hle) (Nat.not_succ_le_self _)⟩
  · intro d e hd
    simp only [StateManagers.setCall, Function.update_apply] at hd
    split at hd
    · exact absurd hd (goOn_ne_error _ e)
    · exact h.documented d e hd

end step

omit [DecidableEq C] in
/-- A call that stands at a part brings in what its rest does. -/
theorem pending_rest (s : StateManagers C) (c : C) (part : CallPart) (rest : List CallPart)
    (evaluated : Option (Nat × InternalTopology))
    (hc : s.calls c = .running (part :: rest) evaluated) :
    (rest.filterMap CallPart.creates).Sublist (s.calls c).pending := by
  rw [hc, CallState.pending, CallState.parts]
  exact (List.sublist_cons_self part rest).filterMap _

theorem reply_inv (s s' : StateManagers C) (h : ManagersInv s) (c : C) (part : CallPart)
    (rest : List CallPart) (evaluated : Option (Nat × InternalTopology)) (r : Reply)
    (hc : s.calls c = .running (part :: rest) evaluated) (hguarded : Guarded s (.reply c r))
    (hs : Turned s c part rest evaluated r s') : ManagersInv s' := by
  have hrest := pending_rest s c part rest evaluated hc
  cases hs with
  | nodesRead => exact goOn_inv h c rest hrest
  | nodesFail _ _ e => exact failed_inv h c _ (by simp [ManagerError.Documented])
  | validated => exact goOn_inv h c rest hrest
  | validateFail _ _ _ _ e hvalid =>
    exact failed_inv h c e (validate_documented _ _ hguarded e hvalid)
  | created _ _ creation id hnew => exact created_inv h c creation id rest hnew hrest
  | read _ _ r parts hrun =>
    apply goOn_inv h c
    rwa [List.filterMap_append, read_creates r parts hrun]
  | readFail _ _ r e hrun =>
    exact failed_inv h c e (read_documented h.integrity r (hguarded r rest evaluated hc) e hrun)
  | evaluated _ change satisfies t hrun =>
    apply setCall_inv h c
    · rw [hc]
      exact List.Sublist.refl _
    · intro part' rest' v t' heq
      cases heq
      exact ⟨le_rfl, fun _ => ⟨change, satisfies, rfl, hrun⟩⟩
    · intro e heq
      cases heq
  | evaluateFail _ change satisfies e t hrun =>
    have hnew : ∀ k ∈ change.creates, Unnamed k.1 k.2 s.topology := by
      intro k hk
      refine (h.pendingNew c k ?_).2
      rw [hc]
      exact List.mem_filterMap.mpr ⟨.change change, List.mem_cons_self, hk⟩
    exact failed_inv h c e (change_documented h.integrity satisfies change hnew
      (hguarded change rest hc) e t hrun)
  | set _ change t => exact set_inv h c change rest t hc
  | conflict _ change version t hversion =>
    apply setCall_inv h c
    · rw [hc]
      exact List.Sublist.refl _
    · intro part' rest' v t' heq
      cases heq
    · intro e heq
      cases heq

theorem start_inv (s s' : StateManagers C) (h : ManagersInv s) (c : C) (call : ManagerCall)
    (hs : s.step (.start c call) = some s') : ManagersInv s' := by
  simp only [StateManagers.step] at hs
  split at hs
  · cases hs
  · rename_i parts hparts _
    obtain rfl := Option.some.inj hs
    apply goOn_inv h c
    rw [parts_creates call parts hparts]
    exact List.nil_sublist _
  · cases hs
  · rename_i e hnot hparts _
    obtain rfl := Option.some.inj hs
    refine failed_inv h c e ⟨fun he => ?_, fun e' he => hnot _ he⟩
    exact parts_ne_attributeError call (he ▸ hparts)

theorem step_managersInv (s s' : StateManagers C) (e : ManagerEvent C) (h : ManagersInv s)
    (hguarded : Guarded s e) (hs : s.step e = some s') : ManagersInv s' := by
  cases e with
  | start c call => exact start_inv s s' h c call hs
  | reply c r =>
    simp only [StateManagers.step] at hs
    split at hs
    · rename_i part rest evaluated hc
      exact reply_inv s s' h c part rest evaluated r hc hguarded (reply_turned s s' c _ _ _ r hs)
    · cases hs

omit [DecidableEq C] in
theorem initial_managersInv (s : StateManagers C) (h : s.Initial) : ManagersInv s where
  integrity := h.topology ▸ freshTopology_integrity
  named kind id hnamed := by
    rw [h.topology] at hnamed
    cases kind <;>
      simp [InternalTopology.Names, freshTopology, InternalTopology.serviceUnit?] at hnamed
  pendingNew c k hk := by simp [h.calls c, CallState.pending, CallState.parts] at hk
  pendingOnce c := by simp [h.calls c, CallState.pending, CallState.parts]
  pendingApart c c' _ k hk := by simp [h.calls c, CallState.pending, CallState.parts] at hk
  evaluated c part rest v t hc := by simp [h.calls c] at hc
  documented c e hc := by simp [h.calls c] at hc

/-- A step that leaves a call's change behind has set the whole of it or has failed, and a call
that fails does so with a documented error, over an unchanged topology. -/
structure Surfaces (s s' : StateManagers C) : Prop where
  writes : s'.topology ≠ s.topology → ∃ c change rest evaluated satisfies,
    s.calls c = .running (.change change :: rest) evaluated ∧
    change.run satisfies s.topology = .ok () s'.topology ∧ s'.calls c = goOn rest
  commits : ∀ c change rest evaluated, s.calls c = .running (.change change :: rest) evaluated →
    (∃ evaluated', s'.calls c = .running (.change change :: rest) evaluated') ∨
      (∃ e, s'.calls c = .ended (.error e)) ∨
      (s'.calls c = goOn rest ∧ ∃ satisfies,
        change.run satisfies s.topology = .ok () s'.topology)
  fails : ∀ c e, s'.calls c = .ended (.error e) → s'.calls c ≠ s.calls c →
    e.Documented ∧ s'.topology = s.topology

/-- A step that is no write surfaces when it keeps the call at its change or fails it. -/
theorem setCall_surfaces (s : StateManagers C) (c : C) (call : CallState)
    (hinv : ManagersInv (s.setCall c call))
    (hchange : ∀ change rest evaluated, s.calls c = .running (.change change :: rest) evaluated →
      (∃ evaluated', call = .running (.change change :: rest) evaluated') ∨
        ∃ e, call = .ended (.error e)) : Surfaces s (s.setCall c call) where
  writes hne := absurd rfl hne
  commits d change rest evaluated hd := by
    by_cases hdc : d = c
    · subst hdc
      simp only [StateManagers.setCall, Function.update_self]
      rcases hchange change rest evaluated hd with hkept | hfailed
      · exact Or.inl hkept
      · exact Or.inr (Or.inl hfailed)
    · refine Or.inl ⟨evaluated, ?_⟩
      simp only [StateManagers.setCall, Function.update_of_ne hdc, hd]
  fails d e hd _ := ⟨hinv.documented d e hd, rfl⟩

theorem set_surfaces (s : StateManagers C) (h : ManagersInv s) (c : C) (change : TopologyChange)
    (rest : List CallPart) (t : InternalTopology)
    (hc : s.calls c = .running (.change change :: rest) (some (s.version, t))) :
    Surfaces s ({ s with topology := t, version := s.version + 1 }.setCall c (goOn rest)) := by
  obtain ⟨-, hrun⟩ := h.evaluated c _ _ _ _ hc
  obtain ⟨_, satisfies, heq, hrun⟩ := hrun rfl
  cases heq
  have hset : Function.update s.calls c (goOn rest) c = goOn rest := Function.update_self ..
  refine ⟨fun _ => ⟨c, change, rest, _, satisfies, hc, hrun, hset⟩, ?_, ?_⟩
  · intro d change' rest' evaluated hd
    by_cases hdc : d = c
    · subst hdc
      rw [hc] at hd
      cases hd
      exact Or.inr (Or.inr ⟨hset, satisfies, hrun⟩)
    · exact Or.inl ⟨evaluated, by
        simp only [StateManagers.setCall, Function.update_of_ne hdc, hd]⟩
  · intro d e hd hne
    by_cases hdc : d = c
    · subst hdc
      exact absurd (hset.symm.trans hd) (goOn_ne_error rest e)
    · exact absurd (Function.update_of_ne hdc _ _) hne

theorem reply_surfaces (s s' : StateManagers C) (h : ManagersInv s) (h' : ManagersInv s') (c : C)
    (part : CallPart) (rest : List CallPart) (evaluated : Option (Nat × InternalTopology))
    (r : Reply) (hc : s.calls c = .running (part :: rest) evaluated)
    (hs : Turned s c part rest evaluated r s') : Surfaces s s' := by
  have hother (hpart : ∀ change, part ≠ .change change) (change : TopologyChange)
      (rest' : List CallPart) (evaluated' : Option (Nat × InternalTopology))
      (hd : s.calls c = .running (.change change :: rest') evaluated') : False := by
    rw [hc] at hd
    cases hd
    exact hpart change rfl
  cases hs with
  | nodesRead =>
    exact setCall_surfaces s c _ h' fun change rest' e hd =>
      (hother (by simp) change rest' e hd).elim
  | nodesFail _ _ e => exact setCall_surfaces s c _ h' fun _ _ _ _ => Or.inr ⟨_, rfl⟩
  | validated =>
    exact setCall_surfaces s c _ h' fun change rest' e hd =>
      (hother (by simp) change rest' e hd).elim
  | validateFail => exact setCall_surfaces s c _ h' fun _ _ _ _ => Or.inr ⟨_, rfl⟩
  | created _ _ creation id hnew =>
    have hmid := setCall_surfaces { s with created := (creation.kind, id) :: s.created } c _ h'
      fun change rest' e hd => (hother (by simp) change rest' e hd).elim
    exact ⟨hmid.writes, hmid.commits, hmid.fails⟩
  | read _ _ r parts hrun =>
    exact setCall_surfaces s c _ h' fun change rest' e hd =>
      (hother (by simp) change rest' e hd).elim
  | readFail _ _ r e hrun => exact setCall_surfaces s c _ h' fun _ _ _ _ => Or.inr ⟨e, rfl⟩
  | evaluated _ change satisfies t hrun =>
    refine setCall_surfaces s c _ h' fun change' rest' e hd => Or.inl ?_
    rw [hc] at hd
    cases hd
    exact ⟨_, rfl⟩
  | evaluateFail _ change satisfies e t hrun =>
    exact setCall_surfaces s c _ h' fun _ _ _ _ => Or.inr ⟨e, rfl⟩
  | set _ change t => exact set_surfaces s h c change rest t hc
  | conflict _ change version t hversion =>
    refine setCall_surfaces s c _ h' fun change' rest' e hd => Or.inl ?_
    rw [hc] at hd
    cases hd
    exact ⟨_, rfl⟩

theorem start_surfaces (s s' : StateManagers C) (h' : ManagersInv s') (c : C) (call : ManagerCall)
    (hs : s.step (.start c call) = some s') : Surfaces s s' := by
  simp only [StateManagers.step] at hs
  split at hs
  · cases hs
  · rename_i parts hparts hidle
    obtain rfl := Option.some.inj hs
    exact setCall_surfaces s c _ h' fun change rest evaluated hd => (hidle _ _ hd).elim
  · cases hs
  · obtain rfl := Option.some.inj hs
    exact setCall_surfaces s c _ h' fun _ _ _ _ => Or.inr ⟨_, rfl⟩

/-- While what the managers' guards leave open does not happen, every call commits its whole
changes or fails with a documented error, whatever the order of the clients' steps. -/
theorem conflicts_surface (s : StateManagers C)
    (h : Reachable StateManagers.Initial StateManagers.step Guarded s) :
    (∀ c e, s.calls c = .ended (.error e) → e.Documented) ∧
      ∀ e s', Guarded s e → s.step e = some s' → Surfaces s s' := by
  have hinv := reachable_invariant ManagersInv initial_managersInv
    (fun s s' e hi hg hs => step_managersInv s s' e hi hg hs) s h
  refine ⟨hinv.documented, fun e s' hguarded hs => ?_⟩
  have hnext := step_managersInv s s' e hinv hguarded hs
  cases e with
  | start c call => exact start_surfaces s s' hnext c call hs
  | reply c r =>
    simp only [StateManagers.step] at hs
    split at hs
    · rename_i part rest evaluated hc
      exact reply_surfaces s s' hinv hnext c part rest evaluated r hc
        (reply_turned s s' c _ _ _ r hs)
    · cases hs

/-- An environment just initialized. -/
def emptyEnvironment : StateManagers Nat := ⟨freshTopology, 0, [], fun _ => .idle⟩

theorem emptyEnvironment_initial : emptyEnvironment.Initial := ⟨rfl, rfl, fun _ => rfl⟩

theorem conflicts_surface_wordpress :
    ∃ s, Reachable StateManagers.Initial StateManagers.step Guarded s ∧
      s.calls (0 : Nat) = .ended (.ok ()) ∧
      (∀ c e, s.calls c = .ended (.error e) → e.Documented) ∧
      ∀ e s', Guarded s e → s.step e = some s' → Surfaces s s' := by
  have hstart : Reachable StateManagers.Initial StateManagers.step Guarded _ :=
    .step emptyEnvironment _ (.start 0 (.addServiceState "wordpress"))
      (.init _ emptyEnvironment_initial) trivial rfl
  have hcreated := Reachable.step _ _ (ManagerEvent.reply 0 (.created "service-0")) hstart
    trivial rfl
  have hevaluated := Reachable.step _ _
    (ManagerEvent.reply 0 (.changeEvaluated fun _ => .ok true)) hcreated
    (fun change rest hc => by
      change CallState.running [.change (.addService "service-0" "wordpress")] none = _ at hc
      cases hc
      trivial) rfl
  have hset := Reachable.step _ _ (ManagerEvent.reply 0 .contentSet) hevaluated trivial rfl
  have hsurface := conflicts_surface _ hset
  exact ⟨_, hset, rfl, hsurface⟩

/-- A relation that comes to a service while the service is removed; and a unit that is added in a
principal's container to a service that is no subordinate. -/
theorem removed_service_escapes :
    (∃ s : StateManagers Nat,
      Reachable StateManagers.Initial StateManagers.step (fun _ _ => True) s ∧
      s.calls 0 = .ended (.error (.state (.topology
        (.serviceInRelations "service-0" ["relation-0"]))))) ∧
    ∃ s : StateManagers Nat,
      Reachable StateManagers.Initial StateManagers.step (fun _ _ => True) s ∧
      s.calls 0 = .ended (.error .attributeError) := by
  have hrun : Reachable StateManagers.Initial StateManagers.step (fun _ _ => True) _ :=
    reachable_stepAll (fun _ _ => trivial) [
    .start 0 (.addServiceState "wordpress"), .reply 0 (.created "service-0"),
    .reply 0 (.changeEvaluated fun _ => .ok true), .reply 0 .contentSet,
    .start 0 (.removeServiceState ⟨"service-0", "wordpress"⟩), .reply 0 .topologyRead,
    .reply 0 .topologyRead,
    .start 1 (.addRelationState [⟨"wordpress", "ring", "ring", "peer", "global"⟩]),
    .reply 1 .topologyRead, .reply 1 (.created "relation-0"),
    .reply 1 (.changeEvaluated fun _ => .ok true), .reply 1 .contentSet,
    .reply 0 (.changeEvaluated fun _ => .ok true)] emptyEnvironment _
    (.init _ emptyEnvironment_initial) rfl
  have hcontainer : Reachable StateManagers.Initial StateManagers.step (fun _ _ => True) _ :=
    reachable_stepAll (fun _ _ => trivial) [
    .start 0 (.addServiceState "wordpress"), .reply 0 (.created "service-0"),
    .reply 0 (.changeEvaluated fun _ => .ok true), .reply 0 .contentSet,
    .start 0 (.addUnitState ⟨"service-0", "wordpress"⟩ none), .reply 0 (.nodes none),
    .reply 0 (.created "unit-0"), .reply 0 (.changeEvaluated fun _ => .ok true),
    .reply 0 .contentSet,
    .start 0 (.addServiceState "mysql"), .reply 0 (.created "service-1"),
    .reply 0 (.changeEvaluated fun _ => .ok true), .reply 0 .contentSet,
    .start 0 (.addUnitState ⟨"service-1", "mysql"⟩
      (some ⟨"service-0", "wordpress", 0, "unit-0"⟩)),
    .reply 0 (.nodes none), .reply 0 (.created "unit-1"),
    .reply 0 (.validated (.ok false) (.ok false))] emptyEnvironment _
    (.init _ emptyEnvironment_initial) rfl
  exact ⟨⟨_, hrun, rfl⟩, _, hcontainer, rfl⟩

end Juju.State
