import Juju.Agents.ProvisioningAgent

namespace Juju.Agents
open Juju.Base

variable {I : Type} [DecidableEq I]

/-- The machine is in the topology and its node records the instance. -/
def Recorded (s : ProvisioningAgent I) (machine : Nat) (instanceId : I) : Prop :=
  machine ∈ s.nodes.topology ∧ s.nodes.node machine = some (some instanceId)

/-- The instance that has just been handed to `shutdown_machine`. -/
def handed (s : ProvisioningAgent I) : Option I :=
  match s.pass with
  | none => none
  | some p =>
    match p.point with
    | .shutdownMachine instanceId => some instanceId
    | _ => none

/-- No periodic check comes before a first notification has been taken up. -/
def Notified (s : ProvisioningAgent I) : ProvisioningEvent I → Prop
  | .periodicMachineCheck => s.currentMachines ≠ none
  | _ => True

/-- A pass begins. -/
def PassBegins (s s' : ProvisioningAgent I) : Prop := s.pass = none ∧ s'.pass.isSome

/-- The pass goes on with the machine's instance recorded. -/
def RecordedInPass (machine : Nat) (instanceId : I) (s : ProvisioningAgent I) : Prop :=
  s.pass.isSome ∧ Recorded s machine instanceId

/-- The machines given to the pass under way. -/
def targets (s : ProvisioningAgent I) : List Nat :=
  match s.pass with
  | none => []
  | some p => p.currentMachines

def HasInstance (s : ProvisioningAgent I) (machine : Nat) : Prop :=
  ∃ instanceId, s.nodes.node machine = some (some instanceId)

/-- The machine that a pass is at work on, if it is processing one. -/
def PassPoint.machine : PassPoint I → Option Nat
  | .getMachineState machine => some machine
  | .getInstanceId machine => some machine
  | .startMachine machine => some machine
  | .setInstanceIdRead machine _ => some machine
  | .setInstanceIdWrite machine _ => some machine
  | _ => none

/-- A pass works on the machines given to it. -/
structure InTargets (p : Pass I) : Prop where
  remaining : ∀ m ∈ p.remaining, m ∈ p.currentMachines
  machine : ∀ m ∈ p.point.machine, m ∈ p.currentMachines

/-- The machines that the agent has in hand: those of the pass, the last notified, and those
about to be. -/
def InHand (s : ProvisioningAgent I) (m : Nat) : Prop :=
  m ∈ targets s ∨ (∃ current, s.currentMachines = some current ∧ m ∈ current) ∨
    ∃ newMachines, s.watch = .read newMachines ∧ m ∈ newMachines

/-- A machine that stays in the topology is in every later notification. -/
structure AgentInv (s : ProvisioningAgent I) : Prop where
  created : ∀ m, m ∈ s.nodes.topology ∨ m ∈ s.nodes.adding ∨ InHand s m → m < s.nodes.sequence
  adding : ∀ m ∈ s.nodes.adding, m ∉ s.nodes.topology ∧ ¬ HasInstance s m ∧ ¬ InHand s m
  current : ∀ current, s.currentMachines = some current → ∀ m ∈ s.nodes.topology,
    HasInstance s m ∨ m ∈ targets s → m ∈ current
  read : ∀ newMachines, s.watch = .read newMachines → ∀ m ∈ s.nodes.topology,
    HasInstance s m ∨ InHand s m → m ∈ newMachines
  pass : ∀ p, s.pass = some p → s.currentMachines ≠ none ∧ InTargets p

omit [DecidableEq I] in
theorem freshlyStarted_inv (s : ProvisioningAgent I) (h : FreshlyStarted s) : AgentInv s := by
  have hhand (m : Nat) : ¬ InHand s m := by
    simp [InHand, targets, h.pass, h.current, h.watch]
  refine ⟨?_, ?_, ?_, ?_, ?_⟩
  · rintro m (hm | hm | hm)
    · exact h.created m (Or.inl hm)
    · exact h.created m (Or.inr hm)
    · exact absurd hm (hhand m)
  · intro m hm
    refine ⟨(h.adding m hm).1, ?_, hhand m⟩
    rintro ⟨i, hi⟩
    exact (h.adding m hm).2 i hi
  · simp [h.current]
  · simp [h.watch]
  · simp [h.pass]

/-- What a step of the pass under way does to the rest. -/
structure Advances (s s' : ProvisioningAgent I) : Prop where
  topology : s'.nodes.topology = s.nodes.topology
  adding : s'.nodes.adding = s.nodes.adding
  sequence : s'.nodes.sequence = s.nodes.sequence
  current : s'.currentMachines = s.currentMachines
  targets : ∀ m ∈ targets s', m ∈ targets s
  read : ∀ newMachines, s'.watch = .read newMachines → s.watch = .read newMachines
  node : ∀ m, HasInstance s' m → HasInstance s m ∨ m ∈ Juju.Agents.targets s
  pass : ∀ p, s'.pass = some p → s.pass ≠ none ∧ InTargets p

omit [DecidableEq I] in
theorem advances_inHand (s s' : ProvisioningAgent I) (h : Advances s s') (m : Nat)
    (hm : InHand s' m) : InHand s m := by
  rcases hm with hm | ⟨current, hc, hm⟩ | ⟨newMachines, hw, hm⟩
  · exact Or.inl (h.targets m hm)
  · exact Or.inr (Or.inl ⟨current, h.current ▸ hc, hm⟩)
  · exact Or.inr (Or.inr ⟨newMachines, h.read _ hw, hm⟩)

omit [DecidableEq I] in
theorem advances_inv (s s' : ProvisioningAgent I) (hs : AgentInv s) (h : Advances s s') :
    AgentInv s' := by
  have hhand (m : Nat) (hm : InHand s' m) : InHand s m := advances_inHand s s' h m hm
  refine ⟨?_, ?_, ?_, ?_, ?_⟩
  · intro m hm
    rw [h.topology, h.adding] at hm
    rw [h.sequence]
    exact hs.created m (hm.imp_right (Or.imp_right (hhand m)))
  · intro m hm
    rw [h.adding] at hm
    obtain ⟨htopology, hinstance, hnot⟩ := hs.adding m hm
    refine ⟨by rwa [h.topology], fun hi => ?_, fun hin => hnot (hhand m hin)⟩
    rcases h.node m hi with hold | htarget
    · exact hinstance hold
    · exact hnot (Or.inl htarget)
  · intro current hc m hm hcase
    rw [h.topology] at hm
    rw [h.current] at hc
    refine hs.current current hc m hm ?_
    rcases hcase with hi | ht
    · exact h.node m hi
    · exact Or.inr (h.targets m ht)
  · intro newMachines hw m hm hcase
    rw [h.topology] at hm
    refine hs.read newMachines (h.read _ hw) m hm ?_
    rcases hcase with hi | hin
    · exact (h.node m hi).imp_right Or.inl
    · exact Or.inr (hhand m hin)
  · intro p hp
    obtain ⟨hpass, hin⟩ := h.pass p hp
    obtain ⟨q, hq⟩ := Option.ne_none_iff_exists'.mp hpass
    exact ⟨h.current ▸ (hs.pass q hq).1, hin⟩

section passes

variable (s : ProvisioningAgent I) (p q : Pass I) (hp : s.pass = some p)

omit [DecidableEq I] in
theorem passEnds_advances : Advances s (passEnds s q) := by
  unfold passEnds
  split
  · exact ⟨rfl, rfl, rfl, rfl, by simp [targets], by simp, fun m => Or.inl, by simp⟩
  · exact ⟨rfl, rfl, rfl, rfl, by simp [targets], fun _ => id, fun m => Or.inl, by simp⟩

variable (hq : q.currentMachines = p.currentMachines)
include hp hq

omit [DecidableEq I] in
theorem setPass_advances (hin : InTargets q) : Advances s { s with pass := some q } := by
  refine ⟨rfl, rfl, rfl, rfl, ?_, fun _ => id, fun m => Or.inl, ?_⟩
  · intro m hm
    simpa [targets, hp, hq] using hm
  · intro r hr
    obtain rfl := Option.some.inj hr
    exact ⟨by simp [hp], hin⟩

variable (hremaining : ∀ m ∈ q.remaining, m ∈ q.currentMachines)
include hremaining

omit [DecidableEq I] in
theorem shutDownNext_advances : Advances s (shutDownNext s q) := by
  unfold shutDownNext
  split
  · exact passEnds_advances s q
  · exact setPass_advances s p _ hp hq ⟨hremaining, by simp [PassPoint.machine]⟩

theorem processNext_advances : Advances s (processNext s q) := by
  unfold processNext
  split
  · exact shutDownNext_advances s p { q with
      unused := (q.providerMachines.filter fun i => i ∉ q.instanceIds).dedup } hp hq hremaining
  · rename_i machine remaining hcons
    have htail : ∀ m ∈ machine :: remaining, m ∈ q.currentMachines := hcons ▸ hremaining
    refine setPass_advances s p _ hp hq ⟨fun m hm => htail m (List.mem_cons_of_mem _ hm), ?_⟩
    intro m hm
    obtain rfl : machine = m := by simpa [PassPoint.machine] using hm
    exact htail machine List.mem_cons_self

omit [DecidableEq I] in
theorem setPoint_advances (point : PassPoint I)
    (hpoint : ∀ m ∈ point.machine, m ∈ q.currentMachines) : Advances s (setPoint s q point) :=
  setPass_advances s p { q with point := point } hp hq ⟨hremaining, hpoint⟩

end passes

theorem passStep_advances (s s' : ProvisioningAgent I) (p : Pass I) (e : ProvisioningEvent I)
    (hp : s.pass = some p) (hin : InTargets p) (hs : passStep s p p.point e = some s') :
    Advances s s' := by
  have hmachine (point : PassPoint I) (hpoint : point.machine = p.point.machine) :
      Advances s (setPoint s p point) :=
    setPoint_advances s p p hp rfl hin.remaining point (hpoint ▸ hin.machine)
  have hfree (point : PassPoint I) (hpoint : point.machine = none) :
      Advances s (setPoint s p point) :=
    setPoint_advances s p p hp rfl hin.remaining point (by simp [hpoint])
  have hnext (q : Pass I) (hc : q.currentMachines = p.currentMachines)
      (hr : q.remaining = p.remaining) : Advances s (processNext s q) :=
    processNext_advances s p q hp hc (by rw [hc, hr]; exact hin.remaining)
  generalize hpoint : p.point = point at hs hmachine
  unfold passStep at hs
  split at hs
  · obtain rfl := Option.some.inj hs
    exact passEnds_advances s p
  · obtain rfl := Option.some.inj hs
    exact hnext _ rfl rfl
  · split at hs
    · obtain rfl := Option.some.inj hs
      exact hmachine _ rfl
    · obtain rfl := Option.some.inj hs
      exact hnext p rfl rfl
  · split at hs
    · obtain rfl := Option.some.inj hs
      exact hnext p rfl rfl
    · obtain rfl := Option.some.inj hs
      exact hmachine _ rfl
    · split at hs
      · obtain rfl := Option.some.inj hs
        exact hfree _ rfl
      · obtain rfl := Option.some.inj hs
        exact hmachine _ rfl
  · obtain rfl := Option.some.inj hs
    exact hnext p rfl rfl
  · obtain rfl := Option.some.inj hs
    exact hmachine _ rfl
  · split at hs
    · obtain rfl := Option.some.inj hs
      exact hnext p rfl rfl
    · obtain rfl := Option.some.inj hs
      exact hmachine _ rfl
  · -- the one reply on which the pass writes
    rename_i machine instanceId
    obtain rfl := Option.some.inj hs
    have htarget : machine ∈ p.currentMachines :=
      hin.machine machine (by simp [hpoint, PassPoint.machine])
    have hset := hfree (.firewall instanceId) rfl
    refine ⟨rfl, rfl, rfl, rfl, hset.targets, fun _ => id, ?_, hset.pass⟩
    rintro m ⟨i, hi⟩
    by_cases hm : m = machine
    · right
      simpa [targets, hp, hm] using htarget
    · left
      have hold : s.nodes.node m = some (some i) := by
        simpa [setPoint, Function.update_of_ne hm] using hi
      exact ⟨i, hold⟩
  · obtain rfl := Option.some.inj hs
    exact hnext _ rfl rfl
  · obtain rfl := Option.some.inj hs
    exact shutDownNext_advances s p p hp rfl hin.remaining
  · obtain rfl := Option.some.inj hs
    exact passEnds_advances s p
  · simp at hs

omit [DecidableEq I] in
/-- A step of the agent that takes nothing into its hand. -/
theorem holds_inv (s s' : ProvisioningAgent I) (h : AgentInv s) (hnodes : s'.nodes = s.nodes)
    (hhand : ∀ m, InHand s' m → InHand s m)
    (hcurrent : ∀ current, s'.currentMachines = some current → ∀ m ∈ s.nodes.topology,
      HasInstance s m ∨ m ∈ targets s' → m ∈ current)
    (hread : ∀ newMachines, s'.watch = .read newMachines → s.watch = .read newMachines)
    (hpass : ∀ p, s'.pass = some p → s'.currentMachines ≠ none ∧ InTargets p) :
    AgentInv s' := by
  have hinstance (m : Nat) : HasInstance s' m ↔ HasInstance s m := by
    simp [HasInstance, hnodes]
  refine ⟨?_, ?_, ?_, ?_, hpass⟩
  · intro m hm
    rw [hnodes] at hm ⊢
    exact h.created m (hm.imp_right (Or.imp_right (hhand m)))
  · intro m hm
    rw [hnodes] at hm ⊢
    obtain ⟨htopology, hnot, hfree⟩ := h.adding m hm
    exact ⟨htopology, fun hi => hnot ((hinstance m).mp hi), fun hin => hfree (hhand m hin)⟩
  · intro current hc m hm hcase
    rw [hnodes] at hm
    exact hcurrent current hc m hm (hcase.imp_left (hinstance m).mp)
  · intro newMachines hw m hm hcase
    rw [hnodes] at hm
    exact h.read newMachines (hread _ hw) m hm (hcase.imp (hinstance m).mp (hhand m))

omit [DecidableEq I] in
theorem processMachines_inv (s : ProvisioningAgent I) (machines : List Nat) (watched : Bool)
    (h : AgentInv s) (hcurrent : s.currentMachines = some machines) :
    AgentInv (processMachines s machines watched) := by
  unfold processMachines
  split
  · exact h
  · rename_i hnone
    have hcover : ∀ m ∈ s.nodes.topology, HasInstance s m ∨ m ∈ machines → m ∈ machines := by
      intro m hm hcase
      rcases hcase with hi | hin
      · exact h.current machines hcurrent m hm (Or.inl hi)
      · exact hin
    refine holds_inv s _ h rfl ?_ ?_ (fun _ => id) ?_
    · rintro m (hm | hm)
      · exact Or.inr (Or.inl ⟨machines, hcurrent, hm⟩)
      · exact Or.inr hm
    · intro current hc
      obtain rfl : machines = current := Option.some.inj (hcurrent.symm.trans hc)
      exact hcover
    · intro p hp
      obtain rfl := Option.some.inj hp
      exact ⟨by simp [hcurrent], fun m => id, by simp [PassPoint.machine]⟩

omit [DecidableEq I] in
theorem topologyChanged_inv (s : ProvisioningAgent I) (newMachines : List Nat)
    (h : AgentInv s) (hw : s.watch = .read newMachines) :
    AgentInv (topologyChanged s newMachines) := by
  have hread (m : Nat) (hm : m ∈ newMachines) : InHand s m := Or.inr (Or.inr ⟨_, hw, hm⟩)
  have hcover (m : Nat) (hm : m ∈ s.nodes.topology) (hcase : HasInstance s m ∨ InHand s m) :
      m ∈ newMachines := h.read newMachines hw m hm hcase
  unfold topologyChanged
  split
  · refine holds_inv s _ h rfl ?_ h.current (by simp) h.pass
    rintro m (hm | hm | ⟨_, hset, -⟩)
    · exact Or.inl hm
    · exact Or.inr (Or.inl hm)
    · simp at hset
  · split
    · cases hp : s.pass with
      | some p =>
        have htargets : targets s = p.currentMachines := by simp [targets, hp]
        refine holds_inv s _ h rfl ?_ ?_ (by simp) ?_
        · rintro m (hm | ⟨current, hc, hm⟩ | ⟨_, hset, -⟩)
          · exact Or.inl (by simpa [targets, hp] using hm)
          · obtain rfl : newMachines = current := Option.some.inj hc
            exact hread m hm
          · simp at hset
        · intro current hc m hm hcase
          obtain rfl : newMachines = current := Option.some.inj hc
          refine hcover m hm (hcase.imp_right fun ht => Or.inl ?_)
          simpa [targets, hp] using ht
        · intro q hq
          exact ⟨by simp, (h.pass q (hp.trans hq)).2⟩
      | none =>
        -- the notified machines come first, then the pass on them
        let noted : ProvisioningAgent I :=
          { s with currentMachines := some newMachines, watch := .callback newMachines }
        have hnoted : AgentInv noted := by
          refine holds_inv s noted h rfl ?_ ?_ (by simp [noted]) (by simp [noted, hp])
          · rintro m (hm | ⟨current, hc, hm⟩ | ⟨_, hset, -⟩)
            · exact Or.inl hm
            · obtain rfl : newMachines = current := Option.some.inj hc
              exact hread m hm
            · simp [noted] at hset
          · intro current hc m hm hcase
            obtain rfl : newMachines = current := Option.some.inj hc
            exact hcover m hm (hcase.imp_right Or.inl)
        have hpassing := processMachines_inv noted newMachines true hnoted rfl
        simpa [noted, hp] using hpassing
    · refine holds_inv s _ h rfl ?_ h.current (by simp) h.pass
      rintro m (hm | hm | ⟨_, hset, -⟩)
      · exact Or.inl hm
      · exact Or.inr (Or.inl hm)
      · simp at hset

section world

variable (s : ProvisioningAgent I) (h : AgentInv s)
include h

omit [DecidableEq I] in
theorem createNode_inv : AgentInv (setNodes s { s.nodes with
    sequence := s.nodes.sequence + 1,
    adding := s.nodes.sequence :: s.nodes.adding,
    node := Function.update s.nodes.node s.nodes.sequence (some none) }) := by
  have hlt (m : Nat) (hm : m ∈ s.nodes.topology ∨ m ∈ s.nodes.adding ∨ InHand s m) :
      m < s.nodes.sequence := h.created m hm
  have hold (m : Nat) (hm : ∃ i, Function.update s.nodes.node s.nodes.sequence (some none) m =
      some (some i)) : HasInstance s m := by
    obtain ⟨i, hi⟩ := hm
    by_cases he : m = s.nodes.sequence
    · simp [he] at hi
    · exact ⟨i, by simpa [Function.update_of_ne he] using hi⟩
  refine ⟨?_, ?_, ?_, ?_, h.pass⟩
  · rintro m (hm | hm | hm)
    · exact Nat.lt_succ_of_lt (hlt m (Or.inl hm))
    · rcases List.mem_cons.mp hm with rfl | hm
      · exact Nat.lt_succ_self _
      · exact Nat.lt_succ_of_lt (hlt m (Or.inr (Or.inl hm)))
    · exact Nat.lt_succ_of_lt (hlt m (Or.inr (Or.inr hm)))
  · intro m hm
    rcases List.mem_cons.mp hm with rfl | hm
    · refine ⟨fun hin => ?_, ?_, fun hin => ?_⟩
      · exact absurd (hlt _ (Or.inl hin)) (lt_irrefl _)
      · rintro ⟨i, hi⟩
        simp [setNodes] at hi
      · exact absurd (hlt _ (Or.inr (Or.inr hin))) (lt_irrefl _)
    · obtain ⟨htopology, hnot, hfree⟩ := h.adding m hm
      exact ⟨htopology, fun hi => hnot (hold m hi), hfree⟩
  · intro current hc m hm hcase
    exact h.current current hc m hm (hcase.imp_left (hold m))
  · intro newMachines hw m hm hcase
    exact h.read newMachines hw m hm (hcase.imp_left (hold m))

omit [DecidableEq I] in
theorem addMachine_inv (machine : Nat) (hin : machine ∈ s.nodes.adding) :
    AgentInv (setNodes s { s.nodes with
      topology := machine :: s.nodes.topology,
      adding := s.nodes.adding.filter (· ≠ machine) }) := by
  obtain ⟨-, hnew, hfree⟩ := h.adding machine hin
  refine ⟨?_, ?_, ?_, ?_, h.pass⟩
  · rintro m (hm | hm | hm)
    · rcases List.mem_cons.mp hm with rfl | hm
      · exact h.created m (Or.inr (Or.inl hin))
      · exact h.created m (Or.inl hm)
    · exact h.created m (Or.inr (Or.inl (List.mem_of_mem_filter hm)))
    · exact h.created m (Or.inr (Or.inr hm))
  · intro m hm
    obtain ⟨hold, hne⟩ := List.mem_filter.mp hm
    obtain ⟨htopology, hnot, hfree⟩ := h.adding m hold
    refine ⟨fun hcons => ?_, hnot, hfree⟩
    rcases List.mem_cons.mp hcons with rfl | hm
    · simp at hne
    · exact htopology hm
  · intro current hc m hm hcase
    rcases List.mem_cons.mp hm with rfl | hm
    · rcases hcase with hi | ht
      · exact absurd hi hnew
      · exact absurd (Or.inl ht) hfree
    · exact h.current current hc m hm hcase
  · intro newMachines hw m hm hcase
    rcases List.mem_cons.mp hm with rfl | hm
    · rcases hcase with hi | ht
      · exact absurd hi hnew
      · exact absurd ht hfree
    · exact h.read newMachines hw m hm hcase

omit [DecidableEq I] in
/-- Machines leave the topology, or nodes are removed. -/
theorem shrink_inv (topology : List Nat) (node : Nat → Option (Option I))
    (htopology : ∀ m ∈ topology, m ∈ s.nodes.topology)
    (hnode : ∀ m i, node m = some (some i) → s.nodes.node m = some (some i)) :
    AgentInv (setNodes s { s.nodes with topology := topology, node := node }) := by
  have hold (m : Nat) (hm : ∃ i, node m = some (some i)) : HasInstance s m := by
    obtain ⟨i, hi⟩ := hm
    exact ⟨i, hnode m i hi⟩
  refine ⟨?_, ?_, ?_, ?_, h.pass⟩
  · intro m hm
    exact h.created m (hm.imp_left (htopology m))
  · intro m hm
    obtain ⟨hnot, hinstance, hfree⟩ := h.adding m hm
    exact ⟨fun hin => hnot (htopology m hin), fun hi => hinstance (hold m hi), hfree⟩
  · intro current hc m hm hcase
    exact h.current current hc m (htopology m hm) (hcase.imp_left (hold m))
  · intro newMachines hw m hm hcase
    exact h.read newMachines hw m (htopology m hm) (hcase.imp_left (hold m))

omit [DecidableEq I] in
theorem topologyRead_inv : AgentInv { s with watch := .read s.nodes.topology } := by
  have hhand (m : Nat) (hm : InHand { s with watch := .read s.nodes.topology } m) :
      m ∈ s.nodes.topology ∨ InHand s m := by
    rcases hm with hm | hm | ⟨newMachines, hread, hm⟩
    · exact Or.inr (Or.inl hm)
    · exact Or.inr (Or.inr (Or.inl hm))
    · cases hread
      exact Or.inl hm
  refine ⟨?_, ?_, h.current, ?_, h.pass⟩
  · rintro m (hm | hm | hm)
    · exact h.created m (Or.inl hm)
    · exact h.created m (Or.inr (Or.inl hm))
    · exact h.created m ((hhand m hm).imp_right Or.inr)
  · intro m hm
    obtain ⟨htopology, hnot, hfree⟩ := h.adding m hm
    refine ⟨htopology, hnot, fun hin => ?_⟩
    rcases hhand m hin with hin | hin
    · exact htopology hin
    · exact hfree hin
  · intro newMachines hread m hm hcase
    cases hread
    exact hm

end world

theorem step_inv (s s' : ProvisioningAgent I) (e : ProvisioningEvent I) (h : AgentInv s)
    (he : Notified s e) (hs : s.step e = some s') : AgentInv s' := by
  have hpass (e : ProvisioningEvent I)
      (hs : (match s.pass with
        | none => none
        | some p => passStep s p p.point e) = some s') : AgentInv s' := by
    cases hp : s.pass with
    | none => simp [hp] at hs
    | some p =>
      rw [hp] at hs
      exact advances_inv s s' h (passStep_advances s s' p e hp (h.pass p hp).2 hs)
  cases e with
  | createNode =>
    obtain rfl := Option.some.inj hs
    exact createNode_inv s h
  | addMachine machine =>
    simp only [ProvisioningAgent.step] at hs
    split at hs
    · obtain rfl := Option.some.inj hs
      exact addMachine_inv s h machine ‹_›
    · simp at hs
  | removeMachine machine =>
    obtain rfl := Option.some.inj hs
    exact shrink_inv s h _ s.nodes.node (fun m hm => List.mem_of_mem_filter hm) (fun _ _ => id)
  | removeNode machine =>
    simp only [ProvisioningAgent.step] at hs
    split at hs
    · simp at hs
    · obtain rfl := Option.some.inj hs
      refine shrink_inv s h s.nodes.topology _ (fun _ => id) fun m i hi => ?_
      by_cases hm : m = machine
      · simp [hm] at hi
      · simpa [Function.update_of_ne hm] using hi
  | topologyRead =>
    simp only [ProvisioningAgent.step] at hs
    split at hs
    · obtain rfl := Option.some.inj hs
      exact topologyRead_inv s h
    · simp at hs
  | topologyChanged =>
    simp only [ProvisioningAgent.step] at hs
    split at hs
    · obtain rfl := Option.some.inj hs
      exact topologyChanged_inv s _ h ‹_›
    · simp at hs
  | watchFails =>
    simp only [ProvisioningAgent.step] at hs
    split at hs
    · simp at hs
    · obtain rfl := Option.some.inj hs
      refine holds_inv s _ h rfl ?_ h.current (by simp) h.pass
      rintro m (hm | hm | ⟨_, hset, -⟩)
      · exact Or.inl hm
      · exact Or.inr (Or.inl hm)
      · simp at hset
  | periodicMachineCheck =>
    obtain rfl := Option.some.inj hs
    obtain ⟨current, hc⟩ := Option.ne_none_iff_exists'.mp he
    exact processMachines_inv s _ false h (by simp [hc])
  | stop =>
    obtain rfl := Option.some.inj hs
    exact ⟨h.created, h.adding, h.current, h.read, h.pass⟩
  | machinesListed instances => exact hpass _ hs
  | machineStateRead => exact hpass _ hs
  | instanceIdRead => exact hpass _ hs
  | machineStarted instanceId => exact hpass _ hs
  | nodeRead => exact hpass _ hs
  | nodeWritten => exact hpass _ hs
  | firewallProcessed => exact hpass _ hs
  | machineShutDown => exact hpass _ hs
  | passFails => exact hpass _ hs

/-- The pass is still to come to the machine, or keeps its instance. -/
def Spares (p : Pass I) (machine : Nat) (instanceId : I) : Prop :=
  match p.point with
  | .getMachines => machine ∈ p.remaining
  | .shutdownMachine handed => instanceId ≠ handed ∧ instanceId ∉ p.unused
  | .getMachineState current => instanceId ∈ p.providerMachines →
      machine = current ∨ machine ∈ p.remaining ∨ instanceId ∈ p.instanceIds
  | .getInstanceId current => instanceId ∈ p.providerMachines →
      machine = current ∨ machine ∈ p.remaining ∨ instanceId ∈ p.instanceIds
  | .firewall kept => instanceId ∈ p.providerMachines →
      instanceId = kept ∨ machine ∈ p.remaining ∨ instanceId ∈ p.instanceIds
  | _ => instanceId ∈ p.providerMachines →
      machine ∈ p.remaining ∨ instanceId ∈ p.instanceIds

section safety

variable (s : ProvisioningAgent I) (p : Pass I) (machine : Nat) (instanceId : I)

omit [DecidableEq I] in
theorem passEnds_pass : (passEnds s p).pass = none := by
  unfold passEnds
  split <;> rfl

omit [DecidableEq I] in
theorem shutDownNext_spares (h : instanceId ∉ p.unused) (q : Pass I)
    (hq : (shutDownNext s p).pass = some q) : Spares q machine instanceId := by
  unfold shutDownNext at hq
  split at hq
  · simp [passEnds_pass] at hq
  · rename_i handed unused hcons
    obtain rfl := Option.some.inj hq
    rw [hcons, List.mem_cons, not_or] at h
    exact h

theorem processNext_spares (h : instanceId ∈ p.providerMachines →
      machine ∈ p.remaining ∨ instanceId ∈ p.instanceIds) (q : Pass I)
    (hq : (processNext s p).pass = some q) : Spares q machine instanceId := by
  unfold processNext at hq
  split at hq
  · rename_i hnil
    refine shutDownNext_spares s _ machine instanceId ?_ q hq
    simp only [List.mem_dedup, List.mem_filter, decide_eq_true_eq, not_and, not_not]
    intro hlisted
    rcases h hlisted with hremaining | hkept
    · simp [hnil] at hremaining
    · exact hkept
  · rename_i current remaining hcons
    obtain rfl := Option.some.inj hq
    intro hlisted
    rcases h hlisted with hremaining | hkept
    · rw [hcons, List.mem_cons] at hremaining
      exact hremaining.imp_right Or.inl
    · exact Or.inr (Or.inr hkept)

/-- A step of the pass spares an instance that is recorded when it is taken. -/
theorem passStep_spares (s' : ProvisioningAgent I) (e : ProvisioningEvent I)
    (hrecorded : Recorded s machine instanceId) (h : Spares p machine instanceId)
    (hs : passStep s p p.point e = some s') (q : Pass I) (hq : s'.pass = some q) :
    Spares q machine instanceId := by
  generalize hpoint : p.point = point at hs
  unfold passStep at hs
  unfold Spares at h
  split at hs
  · obtain rfl := Option.some.inj hs
    simp [passEnds_pass] at hq
  · obtain rfl := Option.some.inj hs
    simp only [hpoint] at h
    refine processNext_spares s _ machine instanceId ?_ q hq
    exact fun _ => Or.inl h
  · simp only [hpoint] at h
    split at hs
    · obtain rfl := Option.some.inj hs
      obtain rfl := Option.some.inj hq
      exact h
    · rename_i current hgone
      obtain rfl := Option.some.inj hs
      refine processNext_spares s p machine instanceId (fun hlisted => ?_) q hq
      have hne : machine ≠ current := fun he => hgone (he ▸ hrecorded.1)
      exact (h hlisted).resolve_left hne
  · rename_i current
    simp only [hpoint] at h
    split at hs
    · rename_i hnode
      obtain rfl := Option.some.inj hs
      refine processNext_spares s p machine instanceId (fun hlisted => ?_) q hq
      have hne : machine ≠ current := fun he => by simp [he ▸ hrecorded.2] at hnode
      exact (h hlisted).resolve_left hne
    · rename_i hnode
      obtain rfl := Option.some.inj hs
      obtain rfl := Option.some.inj hq
      intro hlisted
      have hne : machine ≠ current := fun he => by simp [he ▸ hrecorded.2] at hnode
      exact (h hlisted).resolve_left hne
    · rename_i found hnode
      have hsame (he : machine = current) : instanceId = found := by
        rw [← he, hrecorded.2] at hnode
        exact Option.some.inj (Option.some.inj hnode)
      split at hs
      · obtain rfl := Option.some.inj hs
        obtain rfl := Option.some.inj hq
        intro hlisted
        exact (h hlisted).imp_left hsame
      · rename_i hnot
        obtain rfl := Option.some.inj hs
        obtain rfl := Option.some.inj hq
        intro hlisted
        have hne : machine ≠ current := fun he => hnot (hsame he ▸ hlisted)
        exact (h hlisted).resolve_left hne
  · obtain rfl := Option.some.inj hs
    simp only [hpoint] at h
    exact processNext_spares s p machine instanceId h q hq
  · obtain rfl := Option.some.inj hs
    obtain rfl := Option.some.inj hq
    simp only [hpoint] at h
    exact h
  · simp only [hpoint] at h
    split at hs
    · obtain rfl := Option.some.inj hs
      exact processNext_spares s p machine instanceId h q hq
    · obtain rfl := Option.some.inj hs
      obtain rfl := Option.some.inj hq
      exact h
  · obtain rfl := Option.some.inj hs
    obtain rfl := Option.some.inj hq
    simp only [hpoint] at h
    exact fun hlisted => Or.inr (h hlisted)
  · rename_i kept
    obtain rfl := Option.some.inj hs
    simp only [hpoint] at h
    refine processNext_spares s _ machine instanceId (fun hlisted => ?_) q hq
    rcases h hlisted with he | hremaining | hkept
    · exact Or.inr (by simp [he])
    · exact Or.inl hremaining
    · exact Or.inr (List.mem_append_left _ hkept)
  · obtain rfl := Option.some.inj hs
    simp only [hpoint] at h
    exact shutDownNext_spares s p machine instanceId h.2 q hq
  · obtain rfl := Option.some.inj hs
    simp [passEnds_pass] at hq
  · simp at hs

end safety

/-- What an event does to the pass: nothing, a step of it, or its start, with the machines that
are current by then. -/
theorem step_pass (s s' : ProvisioningAgent I) (e : ProvisioningEvent I)
    (hs : s.step e = some s') :
    s'.pass = s.pass ∨ (∃ p, s.pass = some p ∧ passStep s p p.point e = some s') ∨
      (s.pass = none ∧ s'.nodes = s.nodes ∧
        ((∃ newMachines, s.watch = .read newMachines ∧
            ∃ q, s'.pass = some q ∧ q.point = .getMachines ∧ q.remaining = newMachines) ∨
          e = .periodicMachineCheck ∧ ∃ q, s'.pass = some q ∧ q.point = .getMachines ∧
            q.remaining = s.currentMachines.getD [])) := by
  have hpass (e : ProvisioningEvent I)
      (hs : (match s.pass with
        | none => none
        | some p => passStep s p p.point e) = some s') :
      ∃ p, s.pass = some p ∧ passStep s p p.point e = some s' := by
    cases hp : s.pass with
    | none => simp [hp] at hs
    | some p =>
      rw [hp] at hs
      exact ⟨p, rfl, hs⟩
  cases e with
  | createNode =>
    obtain rfl := Option.some.inj hs
    exact Or.inl rfl
  | addMachine machine =>
    simp only [ProvisioningAgent.step] at hs
    split at hs
    · obtain rfl := Option.some.inj hs
      exact Or.inl rfl
    · simp at hs
  | removeMachine machine =>
    obtain rfl := Option.some.inj hs
    exact Or.inl rfl
  | removeNode machine =>
    simp only [ProvisioningAgent.step] at hs
    split at hs
    · simp at hs
    · obtain rfl := Option.some.inj hs
      exact Or.inl rfl
  | topologyRead =>
    simp only [ProvisioningAgent.step] at hs
    split at hs
    · obtain rfl := Option.some.inj hs
      exact Or.inl rfl
    · simp at hs
  | topologyChanged =>
    simp only [ProvisioningAgent.step] at hs
    split at hs
    · rename_i newMachines hw
      obtain rfl := Option.some.inj hs
      unfold topologyChanged
      split
      · exact Or.inl rfl
      · split
        · cases hp : s.pass with
          | some p => exact Or.inl rfl
          | none =>
            simp only [processMachines]
            exact Or.inr (Or.inr ⟨trivial, trivial, Or.inl ⟨newMachines, hw, _, rfl, rfl, rfl⟩⟩)
        · exact Or.inl rfl
    · simp at hs
  | watchFails =>
    simp only [ProvisioningAgent.step] at hs
    split at hs
    · simp at hs
    · obtain rfl := Option.some.inj hs
      exact Or.inl rfl
  | periodicMachineCheck =>
    obtain rfl := Option.some.inj hs
    unfold processMachines
    cases hp : s.pass with
    | some p => exact Or.inl hp
    | none => exact Or.inr (Or.inr ⟨rfl, rfl, Or.inr ⟨rfl, _, rfl, rfl, rfl⟩⟩)
  | stop =>
    obtain rfl := Option.some.inj hs
    exact Or.inl rfl
  | machinesListed instances => exact Or.inr (Or.inl (hpass _ hs))
  | machineStateRead => exact Or.inr (Or.inl (hpass _ hs))
  | instanceIdRead => exact Or.inr (Or.inl (hpass _ hs))
  | machineStarted instanceId => exact Or.inr (Or.inl (hpass _ hs))
  | nodeRead => exact Or.inr (Or.inl (hpass _ hs))
  | nodeWritten => exact Or.inr (Or.inl (hpass _ hs))
  | firewallProcessed => exact Or.inr (Or.inl (hpass _ hs))
  | machineShutDown => exact Or.inr (Or.inl (hpass _ hs))
  | passFails => exact Or.inr (Or.inl (hpass _ hs))

/-- In a run without a periodic check before the first notification, no instance that has been
recorded for a machine of the topology throughout the pass is handed to `shutdown_machine`. -/
theorem recorded_not_handed (s : ProvisioningAgent I) (machine : Nat) (instanceId : I)
    (h : Throughout FreshlyStarted ProvisioningAgent.step Notified PassBegins
      (RecordedInPass machine instanceId) s) : handed s ≠ some instanceId := by
  have hinv (s : ProvisioningAgent I)
      (hr : Reachable FreshlyStarted ProvisioningAgent.step Notified s) : AgentInv s :=
    reachable_invariant AgentInv freshlyStarted_inv (fun s s' e hs he => step_inv s s' e hs he)
      s hr
  have hspares : ∀ q, s.pass = some q → Spares q machine instanceId := by
    refine throughout_invariant
      (fun s => ∀ q, s.pass = some q → Spares q machine instanceId) ?_ ?_ s h
    · intro s s' e hr he hs hbegins hkeeps q hq
      rcases step_pass s s' e hs with hsame | ⟨p, hp, -⟩ | ⟨-, hnodes, hstart⟩
      · simp [hsame, hbegins.1] at hq
      · simp [hbegins.1] at hp
      · have hrecorded : Recorded s machine instanceId := by
          simpa [Recorded, hnodes] using hkeeps.2
        have hinstance : HasInstance s machine := ⟨instanceId, hrecorded.2⟩
        rcases hstart with ⟨newMachines, hw, q', hq', hpoint, hremaining⟩ |
            ⟨rfl, q', hq', hpoint, hremaining⟩
        · obtain rfl := Option.some.inj (hq.symm.trans hq')
          simp only [Spares, hpoint, hremaining]
          exact (hinv s hr).read newMachines hw machine hrecorded.1 (Or.inl hinstance)
        · obtain rfl := Option.some.inj (hq.symm.trans hq')
          obtain ⟨current, hc⟩ := Option.ne_none_iff_exists'.mp he
          simp only [Spares, hpoint, hremaining, hc, Option.getD_some]
          exact (hinv s hr).current current hc machine hrecorded.1 (Or.inl hinstance)
    · intro s s' e hr hkeeps hp he hs _ q hq
      rcases step_pass s s' e hs with hsame | ⟨p, hpass, hstep⟩ | ⟨hnone, -⟩
      · exact hp q (hsame ▸ hq)
      · exact passStep_spares s p machine instanceId s' e hkeeps.2 (hp p hpass) hstep q hq
      · have hsome : s.pass.isSome = true := hkeeps.1
        simp [hnone] at hsome
  intro hhanded
  unfold handed at hhanded
  split at hhanded
  · simp at hhanded
  · rename_i p hp
    split at hhanded
    · rename_i found hpoint
      obtain rfl := Option.some.inj hhanded
      have hp := hspares p hp
      simp only [Spares, hpoint] at hp
      exact hp.1 rfl
    · simp at hhanded

/-- An agent that finds machine 0 with its instance running. -/
def restarted : ProvisioningAgent Nat :=
  ⟨⟨[0], [], 1, fun m => if m = 0 then some (some 7) else none⟩, true, none, none, .set, none⟩

theorem restarted_fresh : FreshlyStarted restarted := by
  refine ⟨rfl, rfl, rfl, rfl, rfl, ?_, by simp [restarted]⟩
  simp [restarted]

/-- The restarted agent after some events. -/
def later (events : List (ProvisioningEvent Nat)) : ProvisioningAgent Nat :=
  (events.foldlM ProvisioningAgent.step restarted).getD restarted

theorem goesOn_later (fine : ProvisioningAgent Nat → ProvisioningEvent Nat → Prop)
    (events : List (ProvisioningEvent Nat)) (e : ProvisioningEvent Nat)
    (h : Throughout FreshlyStarted ProvisioningAgent.step fine PassBegins
      (RecordedInPass 0 7) (later events)) (he : fine (later events) e)
    (hs : (later events).step e = some (later (events ++ [e])))
    (hk : RecordedInPass 0 7 (later (events ++ [e]))) :
    Throughout FreshlyStarted ProvisioningAgent.step fine PassBegins (RecordedInPass 0 7)
      (later (events ++ [e])) :=
  .goesOn _ _ e h he hs hk

/-- The first notification starts a pass, in which the provider lists an unused instance too. -/
theorem recorded_not_handed_notified :
    let s := later [.topologyRead, .topologyChanged, .machinesListed (some [7, 8]),
      .machineStateRead, .instanceIdRead, .firewallProcessed]
    handed s = some 8 ∧ handed s ≠ some 7 := by
  have hread : Reachable FreshlyStarted ProvisioningAgent.step Notified
      (later [.topologyRead]) :=
    .step restarted _ .topologyRead (.init restarted restarted_fresh) trivial rfl
  have hbegins : Throughout FreshlyStarted ProvisioningAgent.step Notified PassBegins
      (RecordedInPass 0 7) (later [.topologyRead, .topologyChanged]) :=
    .begins _ _ .topologyChanged hread trivial rfl ⟨rfl, rfl⟩ ⟨rfl, by decide, rfl⟩
  have hlisted := goesOn_later Notified _ (.machinesListed (some [7, 8])) hbegins trivial rfl
    ⟨rfl, by decide, rfl⟩
  have hstate := goesOn_later Notified _ .machineStateRead hlisted trivial rfl
    ⟨rfl, by decide, rfl⟩
  have hinstance := goesOn_later Notified _ .instanceIdRead hstate trivial rfl
    ⟨rfl, by decide, rfl⟩
  have hfirewall := goesOn_later Notified _ .firewallProcessed hinstance trivial rfl
    ⟨rfl, by decide, rfl⟩
  exact ⟨rfl, recorded_not_handed _ 0 7 hfirewall⟩

/-- A periodic check before the first notification shuts down the machine of the topology. -/
theorem unnotified_handed :
    ∃ s, Throughout FreshlyStarted ProvisioningAgent.step (fun _ _ => True) PassBegins
      (RecordedInPass 0 7) s ∧ handed s = some (7 : Nat) := by
  have hbegins : Throughout FreshlyStarted ProvisioningAgent.step (fun _ _ => True) PassBegins
      (RecordedInPass 0 7) (later [.periodicMachineCheck]) :=
    .begins restarted _ .periodicMachineCheck (.init restarted restarted_fresh) trivial rfl
      ⟨rfl, rfl⟩ ⟨rfl, by decide, rfl⟩
  have hlisted := goesOn_later (fun _ _ => True) _ (.machinesListed (some [7])) hbegins trivial
    rfl ⟨rfl, by decide, rfl⟩
  exact ⟨_, hlisted, rfl⟩

end Juju.Agents
