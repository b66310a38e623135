import Mathlib.Data.List.Perm.Basic
import Juju.Base.Chains
import Juju.State.RelationUnitWatcher

namespace Juju.State
open Juju.Base

variable {U : Type}

namespace WatcherRequest

/-- An answer that a watch on the container depends on. -/
def ofContainer : WatcherRequest U → Bool
  | .children _ | .container | .memberNames _ _ _ => true
  | _ => false

def settingsOf : WatcherRequest U → Option U
  | .settings u _ | .unitName u => some u
  | _ => none

def delta : WatcherRequest U → Option (List U × List U)
  | .memberNames _ oldUnits newUnits => some (oldUnits, newUnits)
  | _ => none

end WatcherRequest

namespace RelationUnitWatcher

/-- Each of these stands for a container watch, pending or to come. -/
def containerTokens (s : RelationUnitWatcher U) : Nat :=
  s.requests.countP WatcherRequest.ofContainer + s.calling.length + s.containerWatches +
    s.creationWatches

/-- The units with a settings watch, pending or to come. -/
def settingsTokens (s : RelationUnitWatcher U) : List U :=
  s.settingsWatches ++ s.notifying ++ s.answered.map Prod.fst ++
    s.requests.filterMap WatcherRequest.settingsOf

/-- The membership changes processed, in their order: those called, those that wait for names. -/
def changes (s : RelationUnitWatcher U) : List (List U × List U) :=
  s.calls ++ s.requests.filterMap WatcherRequest.delta

structure WatcherInv (s : RelationUnitWatcher U) : Prop where
  container : s.stopped = some false → 0 < s.containerTokens
  settings : ∀ u ∈ s.units, u ∈ s.settingsTokens
  chain : ChainFrom [] s.changes s.units

theorem mem_eraseIdx_or {α : Type} (l : List α) (i : Nat) (a b : α) (hi : l[i]? = some a)
    (hb : b ∈ l) : b = a ∨ b ∈ l.eraseIdx i := by
  obtain ⟨hlt, rfl⟩ := List.getElem?_eq_some_iff.mp hi
  exact List.mem_cons.mp ((List.getElem_cons_eraseIdx_perm hlt).mem_iff.mpr hb)

/-- What a request adds to the watches and to the changes. -/
theorem request_tokens (s : RelationUnitWatcher U) (r : WatcherRequest U) :
    (s.request r).containerTokens = s.containerTokens + (if r.ofContainer then 1 else 0) ∧
      (s.request r).settingsTokens = s.settingsTokens ++ r.settingsOf.toList ∧
      (s.request r).changes = s.changes ++ r.delta.toList := by
  refine ⟨?_, ?_, ?_⟩
  · simp only [containerTokens, request, List.countP_append, List.countP_singleton]
    omega
  · simp only [settingsTokens, request, List.filterMap_append, ← List.append_assoc]
    cases r <;> rfl
  · simp only [changes, request, List.filterMap_append, ← List.append_assoc]
    cases r <;> rfl

/-- A request that is no membership change keeps what holds, and brings a container watch in. -/
theorem request_inv (s : RelationUnitWatcher U) (r : WatcherRequest U) (hdelta : r.delta = none)
    (hcontainer : r.ofContainer = true ∨ (s.stopped = some false → 0 < s.containerTokens))
    (hsettings : ∀ u ∈ s.units, u ∈ s.settingsTokens ∨ r.settingsOf = some u)
    (hchain : ChainFrom [] s.changes s.units) : WatcherInv (s.request r) := by
  obtain ⟨hc, hs, hd⟩ := request_tokens s r
  refine ⟨?_, ?_, ?_⟩
  · intro hrun
    rw [hc]
    rcases hcontainer with hof | hpos
    · rw [if_pos hof]
      omega
    · have := hpos hrun
      omega
  · intro u hu
    rw [hs]
    rcases hsettings u hu with hin | hof
    · exact List.mem_append_left _ hin
    · exact List.mem_append_right _ (by rw [hof]; simp)
  · rw [hd, hdelta, Option.toList_none, List.append_nil]
    exact hchain

variable [DecidableEq U] (interested : U → Bool)

/-- Processing an answer with the children: a watch on the container comes out of it, and every
unit that is new has its settings watch requested. -/
theorem cbContainerChildren_inv (s : RelationUnitWatcher U) (children : List U)
    (hsettings : ∀ u ∈ s.units, u ∈ s.settingsTokens) (hchain : ChainFrom [] s.changes s.units)
    (hfine : children ≠ s.units → children ⊆ s.units → s.unitNameMap = true →
      s.requests.filterMap WatcherRequest.delta = []) :
    WatcherInv (s.cbContainerChildren children) := by
  unfold cbContainerChildren
  split
  · refine ⟨fun _ => ?_, hsettings, hchain⟩
    simp only [containerTokens]
    omega
  · rename_i hne
    set added := children.filter fun u => u ∉ s.units with hadded
    have hcovered (u : U) (hu : u ∈ children) : u ∈ s.settingsTokens ∨ u ∈ added := by
      by_cases hold : u ∈ s.units
      · exact Or.inl (hsettings u hold)
      · exact Or.inr (List.mem_filter.mpr ⟨hu, by simpa using hold⟩)
    have htokens (r : WatcherRequest U → Option U) (hr : r = WatcherRequest.settingsOf) :
        (added.map fun u => WatcherRequest.settings u (some s.nextTask)).filterMap r = added := by
      rw [hr, List.filterMap_map]
      exact List.filterMap_some
    have hdeltas : (added.map fun u => WatcherRequest.settings u (some s.nextTask)).filterMap
        WatcherRequest.delta = [] := by
      rw [List.filterMap_map, List.filterMap_eq_nil_iff]
      intro u _
      rfl
    simp only
    split
    · rename_i hnames
      rw [Bool.and_eq_true, List.isEmpty_iff] at hnames
      have hsub : children ⊆ s.units := by
        intro u hu
        by_contra hnot
        have hin : u ∈ added := List.mem_filter.mpr ⟨hu, by simpa using hnot⟩
        simp [hnames.2] at hin
      have hnone := hfine (Ne.symm hne) hsub hnames.1
      refine ⟨fun _ => ?_, fun u hu => ?_, ?_⟩
      · simp only [containerTokens, List.length_append, List.length_singleton]
        omega
      · have hin := hsettings u (hsub hu)
        simpa [settingsTokens, hnames.2] using hin
      · rw [changes, hnone, List.append_nil] at hchain
        simpa [changes, hnames.2, hnone] using chainFrom_snoc [] s.units children s.calls hchain
    · obtain ⟨hc, ht, hd⟩ := request_tokens
        { s with
          units := children
          unitNameMap := s.unitNameMap && added.isEmpty
          nextTask := s.nextTask + 1
          requests := s.requests ++
            added.map fun u => WatcherRequest.settings u (some s.nextTask) }
        (.memberNames s.nextTask s.units children)
      refine ⟨fun _ => ?_, fun u hu => ?_, ?_⟩
      · rw [hc]
        simp [WatcherRequest.ofContainer]
      · rw [ht]
        simp only [settingsTokens, List.filterMap_append, htokens _ rfl]
        rcases hcovered u hu with hin | hin
        · simp only [settingsTokens, List.mem_append] at hin ⊢
          tauto
        · simp [hin]
      · rw [hd]
        simp only [changes, List.filterMap_append, hdeltas, List.append_nil]
        exact chainFrom_snoc [] s.units children _ hchain

omit [DecidableEq U] in
theorem notifyUnitSettingsVersion_inv (s : RelationUnitWatcher U) (u : U) (stat : Bool)
    (hcontainer : s.stopped = some false → 0 < s.containerTokens)
    (hsettings : ∀ v ∈ s.units, v ∈ s.settingsTokens ∨ v = u)
    (hchain : ChainFrom [] s.changes s.units) :
    WatcherInv (s.notifyUnitSettingsVersion u stat) := by
  unfold notifyUnitSettingsVersion
  split
  · split
    · refine ⟨hcontainer, fun v hv => ?_, hchain⟩
      rcases hsettings v hv with hin | rfl
      · simp only [settingsTokens, List.mem_append] at hin ⊢
        tauto
      · simp [settingsTokens]
    · refine request_inv s _ rfl (Or.inr hcontainer) (fun v hv => ?_) hchain
      rcases hsettings v hv with hin | rfl
      · exact Or.inl hin
      · exact Or.inr rfl
  · refine ⟨hcontainer, fun v hv => ?_, hchain⟩
    rcases hsettings v hv with hin | rfl
    · simp only [settingsTokens, List.mem_append] at hin ⊢
      tauto
    · simp [settingsTokens]

/-- An answer, whichever request it is for. -/
theorem answered_inv (s s' : RelationUnitWatcher U) (e : WatcherEvent U) (h : WatcherInv s)
    (hfine : Attended interested s e)
    (he : (∃ children, e = .childrenAnswered children) ∨ (∃ stat, e = .existsAnswered stat) ∨
      e = .namesAnswered) (hs : s.step interested e = some s') : WatcherInv s' := by
  obtain ⟨hcontainer, hsettings, hchain⟩ := h
  -- what is left when the first request is answered
  have hcount (r : WatcherRequest U) (rest : List (WatcherRequest U))
      (hreq : s.requests = r :: rest) : s.containerTokens =
        { s with requests := rest }.containerTokens + (if r.ofContainer then 1 else 0) := by
    simp only [containerTokens, hreq, List.countP_cons]
    omega
  have hunits (r : WatcherRequest U) (rest : List (WatcherRequest U))
      (hreq : s.requests = r :: rest) (u : U) (hu : u ∈ s.units) :
      u ∈ { s with requests := rest }.settingsTokens ∨ r.settingsOf = some u := by
    have hin := hsettings u hu
    simp only [settingsTokens, hreq, List.filterMap_cons, List.mem_append] at hin ⊢
    cases hr : r.settingsOf with
    | none =>
      rw [hr] at hin
      exact Or.inl hin
    | some v =>
      rw [hr, List.mem_cons] at hin
      rcases hin with hin | rfl | hin
      · exact Or.inl (Or.inl hin)
      · exact Or.inr rfl
      · exact Or.inl (Or.inr hin)
  rcases he with ⟨children, rfl⟩ | ⟨stat, rfl⟩ | rfl
  · simp only [step] at hs
    split at hs
    · rename_i b requests children hreq
      obtain rfl := Option.some.inj hs
      apply cbContainerChildren_inv
      · intro u hu
        exact (hunits _ _ hreq u hu).resolve_right nofun
      · rw [changes, hreq] at hchain
        exact hchain
      · intro hne hsub hnames
        rw [List.filterMap_eq_nil_iff]
        intro r hr
        have hnot := hfine hne hsub hnames
        cases r with
        | memberNames task oldUnits newUnits =>
          exact absurd (hreq ▸ List.mem_cons_of_mem _ hr) (hnot task oldUnits newUnits)
        | _ => rfl
    · rename_i requests hreq
      obtain rfl := Option.some.inj hs
      refine request_inv _ _ rfl (Or.inl rfl) (fun u hu => ?_) ?_
      · exact Or.inl ((hunits _ _ hreq u hu).resolve_right nofun)
      · rw [changes, hreq] at hchain
        exact hchain
    · cases hs
  · simp only [step] at hs
    split at hs
    · rename_i requests hreq
      obtain rfl := Option.some.inj hs
      have hleft : ChainFrom [] { s with requests := requests }.changes s.units := by
        rw [changes, hreq] at hchain
        exact hchain
      split
      · refine request_inv _ _ rfl (Or.inl rfl) (fun u hu => ?_) hleft
        exact Or.inl ((hunits _ _ hreq u hu).resolve_right nofun)
      · refine ⟨fun _ => ?_, fun u hu => ?_, hleft⟩
        · simp only [containerTokens]
          omega
        · exact (hunits _ _ hreq u hu).resolve_right nofun
    · rename_i u task requests hreq
      obtain rfl := Option.some.inj hs
      refine ⟨fun hrun => ?_, fun v hv => ?_, ?_⟩
      · have hpos := hcontainer hrun
        rw [hcount _ _ hreq] at hpos
        exact hpos
      · rcases hunits _ _ hreq v hv with hin | hof
        · simp only [settingsTokens, List.map_append, List.mem_append] at hin ⊢
          tauto
        · obtain rfl := Option.some.inj hof
          simp [settingsTokens]
      · rw [changes, hreq] at hchain
        exact hchain
    · cases hs
  · simp only [step] at hs
    split at hs
    · rename_i task oldUnits newUnits requests hreq
      obtain rfl := Option.some.inj hs
      refine ⟨fun _ => ?_, fun u hu => ?_, ?_⟩
      · simp only [containerTokens, List.length_append, List.length_singleton]
        omega
      · exact (hunits _ _ hreq u hu).resolve_right nofun
      · rw [changes, hreq] at hchain
        simpa [changes, WatcherRequest.delta] using hchain
    · rename_i u requests hreq
      obtain rfl := Option.some.inj hs
      refine ⟨fun hrun => ?_, fun v hv => ?_, ?_⟩
      · have hpos := hcontainer hrun
        rw [hcount _ _ hreq] at hpos
        exact hpos
      · rcases hunits _ _ hreq v hv with hin | hof
        · simp only [settingsTokens, List.mem_append] at hin ⊢
          tauto
        · obtain rfl := Option.some.inj hof
          simp [settingsTokens]
      · rw [changes, hreq] at hchain
        exact hchain
    · cases hs

theorem step_watcherInv (s s' : RelationUnitWatcher U) (e : WatcherEvent U) (h : WatcherInv s)
    (hfine : Attended interested s e) (hs : s.step interested e = some s') : WatcherInv s' := by
  have hinv := h
  obtain ⟨hcontainer, hsettings, hchain⟩ := h
  cases e with
  | start =>
    simp only [step] at hs
    split at hs
    · cases hs
    · obtain rfl := Option.some.inj hs
      exact request_inv _ _ rfl (Or.inl rfl) (fun u hu => Or.inl (hsettings u hu)) hchain
  | stop =>
    obtain rfl := Option.some.inj hs
    exact ⟨nofun, hsettings, hchain⟩
  | childrenAnswered children =>
    exact answered_inv interested s s' _ hinv hfine (Or.inl ⟨_, rfl⟩) hs
  | existsAnswered stat =>
    exact answered_inv interested s s' _ hinv hfine (Or.inr (Or.inl ⟨_, rfl⟩)) hs
  | namesAnswered => exact answered_inv interested s s' _ hinv hfine (Or.inr (Or.inr rfl)) hs
  | membersDone i =>
    simp only [step] at hs
    split at hs
    · obtain rfl := Option.some.inj hs
      refine ⟨fun _ => ?_, hsettings, hchain⟩
      simp only [containerTokens]
      omega
    · cases hs
  | settingsTracked i =>
    simp only [step] at hs
    split at hs
    · cases hs
    · rename_i u task stat hi
      split at hs
      · cases hs
      · obtain rfl := Option.some.inj hs
        refine notifyUnitSettingsVersion_inv _ u stat hcontainer (fun v hv => ?_) hchain
        have hin := hsettings v hv
        simp only [settingsTokens, List.mem_append, List.mem_map] at hin ⊢
        rcases hin with (hin | ⟨x, hx, rfl⟩) | hin
        · exact Or.inl (Or.inl (Or.inl hin))
        · rcases mem_eraseIdx_or _ i _ _ hi hx with rfl | hx
          · exact Or.inr rfl
          · exact Or.inl (Or.inl (Or.inr ⟨x, hx, rfl⟩))
        · exact Or.inl (Or.inr hin)
  | settingsDone i =>
    simp only [step] at hs
    split at hs
    · cases hs
    · rename_i u hi
      obtain rfl := Option.some.inj hs
      refine ⟨hcontainer, fun v hv => ?_, hchain⟩
      have hin := hsettings v hv
      simp only [settingsTokens, List.mem_append, List.mem_singleton] at hin ⊢
      rcases hin with ((hin | hin) | hin) | hin
      · tauto
      · rcases mem_eraseIdx_or _ i _ _ hi hin with rfl | hin <;> tauto
      · tauto
      · tauto
  | containerFired =>
    simp only [step] at hs
    split at hs
    · cases hs
    · rename_i n hn
      obtain rfl := Option.some.inj hs
      unfold cbContainerChildChange
      split
      · rename_i hstop
        refine ⟨fun hrun => ?_, hsettings, hchain⟩
        simp only at hrun hstop
        simp [hstop] at hrun
      · exact request_inv _ _ rfl (Or.inl rfl) (fun u hu => Or.inl (hsettings u hu)) hchain
  | containerCreated =>
    simp only [step] at hs
    split at hs
    · cases hs
    · obtain rfl := Option.some.inj hs
      exact request_inv _ _ rfl (Or.inl rfl) (fun u hu => Or.inl (hsettings u hu)) hchain
  | settingsFired i =>
    simp only [step] at hs
    split at hs
    · cases hs
    · rename_i u hi
      obtain rfl := Option.some.inj hs
      have hleft (v : U) (hv : v ∈ s.units) :
          v ∈ { s with settingsWatches := s.settingsWatches.eraseIdx i }.settingsTokens ∨
            v = u := by
        have hin := hsettings v hv
        simp only [settingsTokens, List.mem_append] at hin ⊢
        rcases hin with ((hin | hin) | hin) | hin
        · rcases mem_eraseIdx_or _ i _ _ hi hin with rfl | hin <;> tauto
        · tauto
        · tauto
        · tauto
      unfold cbUnitChange
      split
      · rename_i hdropped
        refine ⟨hcontainer, fun v hv => (hleft v hv).resolve_right ?_, hchain⟩
        rintro rfl
        rcases hdropped with hstop | hgone
        · exact hfine v hi hv hstop
        · exact hgone hv
      · refine request_inv _ _ rfl (Or.inr hcontainer) (fun v hv => ?_) hchain
        rcases hleft v hv with hin | rfl
        · exact Or.inl hin
        · exact Or.inr rfl

/-- The answers to the settings requests of new units leave the requests behind them. -/
theorem settings_answered (s : RelationUnitWatcher U) (task : Option Nat) (units : List U)
    (rest : List (WatcherRequest U)) (stats : List Bool) (es : List (WatcherEvent U))
    (hlength : stats.length = units.length)
    (hreq : s.requests = units.map (fun u => .settings u task) ++ rest) :
    ∃ answered, stepAll (step interested) s (stats.map .existsAnswered ++ es) =
      stepAll (step interested) { s with requests := rest, answered := answered } es := by
  induction units generalizing s stats with
  | nil =>
    obtain rfl := List.length_eq_zero_iff.mp hlength
    obtain rfl : s.requests = rest := hreq
    exact ⟨s.answered, rfl⟩
  | cons u units ih =>
    cases stats with
    | nil => simp at hlength
    | cons stat stats =>
      obtain ⟨answered, hrun⟩ := ih
        { s with
          requests := units.map (fun u => .settings u task) ++ rest
          answered := s.answered ++ [(u, task, stat)] }
        stats (by simpa using hlength) rfl
      refine ⟨answered, ?_⟩
      simpa only [List.map_cons, List.cons_append, stepAll, step, hreq, Option.bind_some] using hrun

/-- Children that differ are reported: at once, or when the names have been read. -/
theorem cbContainerChildren_reports (s₀ s : RelationUnitWatcher U) (children : List U)
    (hreq : s.requests = []) (hcalls : s.calls = s₀.calls) (hne : s.units ≠ children) :
    Reports interested s₀ (s.cbContainerChildren children) s.units children := by
  unfold cbContainerChildren
  rw [if_neg hne]
  dsimp only
  split
  · exact Or.inl (by rw [hcalls])
  · refine Or.inr ⟨hcalls, (children.filter fun u => u ∉ s.units).length, ?_⟩
    intro stats hstats
    generalize ht : request _ _ = t
    have hrequests : t.requests = (children.filter fun u => u ∉ s.units).map
        (fun u => .settings u (some s.nextTask)) ++
          [.memberNames s.nextTask s.units children] := by
      rw [← ht]
      simp only [request, hreq, List.nil_append]
    obtain ⟨answered, hrun⟩ := settings_answered interested t (some s.nextTask) _ _ stats
      [.namesAnswered] hstats hrequests
    rw [hrun]
    refine ⟨_, rfl, ?_⟩
    rw [← hcalls, ← ht]
    rfl

/-- A watcher with nothing under way but a read of the children reports what it will be told. -/
theorem children_reported (s₀ s : RelationUnitWatcher U) (b : Bool)
    (h : s.requests = [.children b]) (hcalls : s.calls = s₀.calls) (children : List U) :
    ∃ s₂, s.step interested (.childrenAnswered (some children)) = some s₂ ∧
      (children.filter interested ≠ s.units →
        Reports interested s₀ s₂ s.units (children.filter interested)) := by
  refine ⟨{ s with requests := [] }.cbContainerChildren (children.filter interested), ?_, ?_⟩
  · simp only [step, h]
  · intro hne
    exact cbContainerChildren_reports interested s₀ { s with requests := [] } _ rfl hcalls
      (Ne.symm hne)

omit [DecidableEq U] in
theorem quiet_lastReported (s : RelationUnitWatcher U) (h : WatcherInv s) (hquiet : s.Quiet) :
    s.lastReported = s.units := by
  have hchain := h.chain
  rw [changes, hquiet.requests, List.filterMap_nil, List.append_nil] at hchain
  exact chainFrom_last [] s.units s.calls hchain

theorem quiet_covered (s : RelationUnitWatcher U) (h : WatcherInv s)
    (hrun : s.stopped = some false) (hquiet : s.Quiet) : s.Covered interested := by
  have hlast := quiet_lastReported s h hquiet
  have hstop : ¬ s.stopped = some true := by simp [hrun]
  constructor
  · have hpos := h.container hrun
    simp only [containerTokens, hquiet.requests, hquiet.calling, List.countP_nil,
      List.length_nil] at hpos
    rw [hlast]
    cases hwatches : s.containerWatches with
    | succ n =>
      refine ⟨.containerFired, Or.inl rfl, { s with containerWatches := n }.request (.children false),
        ?_, ?_⟩
      · simp only [step, hwatches, cbContainerChildChange, if_neg hstop]
      · exact children_reported interested s _ false (by simp [request, hquiet.requests]) rfl
    | zero =>
      cases hcreation : s.creationWatches with
      | zero => omega
      | succ n =>
        refine ⟨.containerCreated, Or.inr rfl,
          { s with creationWatches := n }.request (.children true), ?_, ?_⟩
        · simp only [step, hcreation]
        · exact children_reported interested s _ true (by simp [request, hquiet.requests]) rfl
  · intro u hu
    rw [hlast] at hu
    have hin := h.settings u hu
    simp only [settingsTokens, hquiet.requests, hquiet.answered, hquiet.notifying,
      List.filterMap_nil, List.map_nil, List.append_nil] at hin
    obtain ⟨i, hi, rfl⟩ := List.getElem_of_mem hin
    set s₀ := { s with settingsWatches := s.settingsWatches.eraseIdx i } with hs₀
    have hkept : ¬ (s₀.stopped = some true ∨ s.settingsWatches[i] ∉ s₀.units) := by
      rintro (hs | hs)
      · exact hstop hs
      · exact hs hu
    refine ⟨i, s₀.request (.settings s.settingsWatches[i] none),
      { s₀ with answered := [(s.settingsWatches[i], none, true)] },
      s₀.notifyUnitSettingsVersion s.settingsWatches[i] true, List.getElem?_eq_getElem hi,
      ?_, ?_, ?_, ?_⟩
    · simp only [step, List.getElem?_eq_getElem hi, cbUnitChange]
      rw [if_neg hkept]
    · simp [step, request, hs₀, hquiet.requests, hquiet.answered]
    · simp [step, hs₀, hquiet.answered]
    · unfold notifyUnitSettingsVersion
      simp only [if_true]
      split
      · exact Or.inl rfl
      · refine Or.inr ⟨{ s₀ with
          requests := []
          unitNameMap := true
          notifying := s.notifying ++ [s.settingsWatches[i]] }, ?_, rfl⟩
        simp only [step, request, hs₀, hquiet.requests, List.nil_append]

omit [DecidableEq U] in
theorem watcherInv_chain (s : RelationUnitWatcher U) (h : WatcherInv s) : s.CallsChain := by
  intro before c d after hcalls u
  obtain ⟨m, hfirst, -⟩ := (chainFrom_append [] s.units s.calls _).mp h.chain
  rw [hcalls] at hfirst
  rw [chainFrom_adjacent [] m before after c d hfirst]

/-- While no settings change of a known unit comes to a stopped watcher, and no membership change
overtakes another, a running watcher covers its container and the units that it has reported. -/
theorem watcher_covers (s : RelationUnitWatcher U)
    (h : Reachable (· = constructed) (step interested) (Attended interested) s) :
    (s.stopped = some false → s.Quiet → s.Covered interested) ∧ s.CallsChain := by
  have hinv := reachable_invariant WatcherInv
    (by
      rintro s rfl
      exact ⟨nofun, nofun, rfl⟩)
    (fun s s' e hi hf hs => step_watcherInv interested s s' e hi hf hs) s h
  exact ⟨quiet_covered interested s hinv, watcherInv_chain s hinv⟩

theorem watcher_covers_unit :
    ∃ s : RelationUnitWatcher Nat,
      Reachable (· = constructed) (step fun _ => true) (Attended fun _ => true) s ∧ s.Quiet ∧
      s.lastReported = [7] ∧ (s.stopped = some false → s.Quiet → s.Covered fun _ => true) ∧
      s.CallsChain := by
  have hstart : Reachable (· = constructed) (step fun _ => true) (Attended fun _ => true) _ :=
    .step (constructed : RelationUnitWatcher Nat) _ .start (.init _ rfl) trivial rfl
  have hchildren := Reachable.step _ _ (WatcherEvent.childrenAnswered (some [7])) hstart
    (fun _ _ hnames => by cases hnames) rfl
  have hexists := Reachable.step _ _ (WatcherEvent.existsAnswered true) hchildren trivial rfl
  have hnames := Reachable.step _ _ WatcherEvent.namesAnswered hexists trivial rfl
  have hmembers := Reachable.step _ _ (WatcherEvent.membersDone 0) hnames trivial rfl
  have htracked := Reachable.step _ _ (WatcherEvent.settingsTracked 0) hmembers trivial rfl
  have hdone := Reachable.step _ _ (WatcherEvent.settingsDone 0) htracked trivial rfl
  exact ⟨_, hdone, ⟨rfl, rfl, rfl, rfl⟩, rfl, watcher_covers _ _ hdone⟩

/-- A settings change while the watcher is stopped takes the unit's watch away for good, and a
read of the children between two restarts overtakes the change before it. -/
theorem restarted_uncovered :
    ∃ s t : RelationUnitWatcher Nat,
      Reachable (· = constructed) (step fun _ => true) (fun _ _ => True) s ∧
      s.stopped = some false ∧ s.Quiet ∧ s.lastReported = [7] ∧ s.settingsWatches = [] ∧
      ¬ s.Covered (fun _ => true) ∧
      Reachable (· = constructed) (step fun _ => true) (fun _ _ => True) t ∧
      t.calls = [([], [1]), ([1, 2], [2]), ([1], [1, 2])] ∧ ¬ t.CallsChain := by
  have hstopped : Reachable (· = constructed) (step fun _ => true) (fun _ _ => True) _ :=
    reachable_stepAll (fun _ _ => trivial)
      [.start, .childrenAnswered (some [7]), .existsAnswered true, .namesAnswered, .membersDone 0,
        .settingsTracked 0, .settingsDone 0, .stop, .settingsFired 0, .start,
        .childrenAnswered (some [7])]
      (constructed : RelationUnitWatcher Nat) _ (.init _ rfl) rfl
  have hovertaken : Reachable (· = constructed) (step fun _ => true) (fun _ _ => True) _ :=
    reachable_stepAll (fun _ _ => trivial)
      [.start, .stop, .start, .childrenAnswered (some [1]), .stop, .start,
        .childrenAnswered (some [1, 2]), .existsAnswered true, .namesAnswered,
        .childrenAnswered (some [2]), .existsAnswered true, .namesAnswered]
      (constructed : RelationUnitWatcher Nat) _ (.init _ rfl) rfl
  refine ⟨_, _, hstopped, rfl, ⟨rfl, rfl, rfl, rfl⟩, rfl, rfl, fun h => ?_, hovertaken, rfl,
    fun h => ?_⟩
  · obtain ⟨i, _, _, _, hi, -⟩ := h.settings 7 List.mem_cons_self
    cases hi
  · have hsame := h [] _ _ _ rfl 2
    exact absurd (hsame.mp (by decide)) (by decide)

end RelationUnitWatcher

end Juju.State
