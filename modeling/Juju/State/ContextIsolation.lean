import Juju.State.RelationHookContext
import Juju.State.SettingsAgreement
import Juju.State.YAMLMerge

namespace Juju.State
open Juju.Base
open Juju.Lib

variable {K V : Type} [DecidableEq K] [DecidableEq V]

/-- A local write. -/
inductive Edit (K V : Type) where
  | put (key : K) (value : V)
  | remove (key : K)

def Edit.apply (settings : K → Option V) : Edit K V → K → Option V
  | .put key value => Function.update settings key (some value)
  | .remove key => Function.update settings key none

/-- Settings with local writes over them. -/
def overlay (settings : K → Option V) (edits : List (Edit K V)) : K → Option V :=
  edits.foldl Edit.apply settings

/-- What a context is to show: the nodes as others change them, what the node of a unit had at
the first access, and the local writes so far. Units are known by a `κ`. -/
structure ContextView (κ K V : Type) where
  contents : String → Option (Dict K V)
  seen : κ → Option (K → Option V)
  edits : List (Edit K V)
  written : Bool

def newView {κ : Type} (contents : String → Option (Dict K V)) : ContextView κ K V :=
  ⟨contents, fun _ => none, [], false⟩

/-- A unit is known by its id; a name that leads to no unit stands for itself. -/
def byUnit (t : InternalTopology) (k : TextKind) (unitName : String) : String ⊕ String :=
  match t.getServiceUnitIdFromName k unitName with
  | .ok (some unitId) => .inl unitId
  | _ => .inr unitName

/-- A unit is known by its name, as it is written. -/
def byName (unitName : String) : String := unitName

section view

variable {κ : Type} [DecidableEq κ] (t : InternalTopology) (k : TextKind) (r : UnitRelationState)
  (key : String → κ) (blank : V) (v : ContextView κ K V)

/-- What the context's own unit is known by. -/
def ownKey : Except ContextError κ := (resolveUnit t r none).map key

/-- The settings shown for a unit whose node had `first` at the first access. -/
def ContextView.shown (unitName : String) (first : K → Option V) : K → Option V :=
  if ownKey t r key = .ok (key unitName) then overlay first v.edits else first

/-- An access of a unit's settings. -/
def ContextView.access (unit : Option String) :
    ContextView κ K V × Except ContextError (String × (K → Option V)) :=
  match resolveUnit t r unit with
  | .error e => (v, .error e)
  | .ok unitName =>
    match v.seen (key unitName) with
    | some first => (v, .ok (unitName, first))
    | none =>
      match unitSettingsPath t k r unitName with
      | .error e => (v, .error e)
      | .ok path =>
        match v.contents path with
        | none => (v, .error (.unitRelationStateNotFound r.internalRelationId unitName))
        | some data =>
          ({ v with seen := Function.update v.seen (key unitName) (some (data.lookup ·)) },
            .ok (unitName, (data.lookup ·)))

def ContextView.edit (edits : List (Edit K V)) :
    ContextView κ K V × ContextResult (K → Option V) V :=
  match ContextView.access t k r key { v with written := true } none with
  | (v, .error e) => (v, .raised e)
  | (v, .ok _) => ({ v with edits := v.edits ++ edits }, .done)

def ContextView.call : ContextCall K V → ContextView κ K V × ContextResult (K → Option V) V
  | .get unit =>
    match v.access t k r key unit with
    | (v, .error e) => (v, .raised e)
    | (v, .ok (unitName, first)) => (v, .settings (v.shown t r key unitName first))
  | .getValue unit item =>
    match v.access t k r key unit with
    | (v, .error e) => (v, .raised e)
    | (v, .ok (unitName, first)) => (v, .value ((v.shown t r key unitName first item).getD blank))
  | .set none => (v, .raised .typeError)
  | .set (some data) => v.edit t k r key (data.entries.map fun e => .put e.1 e.2)
  | .setValue item value => v.edit t k r key [.put item value]
  | .deleteValue item => v.edit t k r key [.remove item]

def ContextView.event : ContextEvent K V →
    ContextView κ K V × Option (ContextResult (K → Option V) V)
  | .call c => ((v.call t k r key blank c).1, some (v.call t k r key blank c).2)
  | .changeNode path content => ({ v with contents := Function.update v.contents path content },
      none)

def ContextView.run : ContextView κ K V → List (ContextEvent K V) →
    ContextView κ K V × List (Option (ContextResult (K → Option V) V))
  | v, [] => (v, [])
  | v, e :: events =>
    let (v, result) := v.event t k r key blank e
    let (v, results) := ContextView.run v events
    (v, result :: results)

end view

/-- A `YAMLState` that was read when its node had `first` and now shows `shown`. -/
structure Buffers (s : YAMLState K V) (first shown : K → Option V) : Prop where
  pristine : ∃ pristine, s.pristineCache = some pristine ∧ (pristine.lookup ·) = first
  mapping : (s.mapping.lookup ·) = shown

section follows

variable {κ : Type} [DecidableEq κ] (t : InternalTopology) (k : TextKind) (r : UnitRelationState)
  (key : String → κ)

/-- What the context has for a unit is what the view says. -/
def Caches (x : RelationHookContext K V) (v : ContextView κ K V) (unitName : String) : Prop :=
  match v.seen (key unitName) with
  | none => x.nodeCache.lookup unitName = none ∧
      (ownKey t r key = .ok (key unitName) → v.edits = [])
  | some first => ∃ path, x.nodeCache.lookup unitName = some path ∧
      unitSettingsPath t k r unitName = .ok path ∧
      Buffers ((x.nodes path).clients unitName) first (v.shown t r key unitName first)

/-- The names that are `named`, the own unit's among them, are those of different units. -/
structure Distinct (named : String → Prop) : Prop where
  own : ∀ own, resolveUnit t r none = .ok own → named own
  apart : ∀ n m, named n → named m → key n = key m → n = m

/-- The context does with the units that are `named` what the view says. -/
structure Follows (named : String → Prop) (x : RelationHookContext K V)
    (v : ContextView κ K V) : Prop where
  contents : x.contents = v.contents
  caches : ∀ unitName, named unitName → Caches t k r key x v unitName
  written : x.needsFlushing = v.written
  unwritten : v.written = false → v.edits = []
  idle : x.flushing = none ∧ ∀ path, (x.nodes path).writes () = none

omit [DecidableEq κ] in
theorem distinct_byName : Distinct t r byName fun _ => True :=
  ⟨fun _ _ => trivial, fun _ _ _ _ h => h⟩

end follows

omit [DecidableEq V] in
/-- A new `YAMLState` of a unit is read. -/
theorem readFinish_new (m : YAMLNode String Unit K V) (unitName : String) :
    ∃ m', (∀ n ≠ unitName, m'.clients n = m.clients n) ∧ m'.node = m.node ∧
      m'.writes = m.writes ∧
      ((m.node = none ∧ readFinish (readStart (m.setClient unitName newYAMLState) unitName)
          unitName true = (m', some (.raised .stateNotFound))) ∨
        ∃ data, m.node = some data ∧
          readFinish (readStart (m.setClient unitName newYAMLState) unitName) unitName true =
            (m', some .done) ∧
          Buffers (m'.clients unitName) (data.lookup ·) (data.lookup ·)) := by
  cases hm : m.node with
  | none =>
    refine ⟨_, ?_, ?_, ?_, Or.inl ⟨rfl, by simp [readFinish, readStart, YAMLNode.setClient,
      YAMLState.rebind, newYAMLState, hm]; rfl⟩⟩
    · intro n hn
      simp [Function.update_of_ne hn]
    · rfl
    · rfl
  | some data =>
    by_cases hdata : data.entries = []
    · have hempty : data = ∅ := AList.ext hdata
      refine ⟨_, ?_, ?_, ?_, Or.inr ⟨data, rfl, by simp [readFinish, readStart,
        YAMLNode.setClient, YAMLState.rebind, newYAMLState, hm, hdata]; rfl, ?_⟩⟩
      · intro n hn
        simp [Function.update_of_ne hn]
      · rfl
      · rfl
      · rw [hempty]
        exact ⟨⟨∅, by simp, rfl⟩, by simp [YAMLState.mapping]⟩
    · refine ⟨_, ?_, ?_, ?_, Or.inr ⟨data, rfl, by simp [readFinish, readStart,
        YAMLNode.setClient, YAMLState.rebind, newYAMLState, hm, hdata]; rfl, ?_⟩⟩
      · intro n hn
        simp [Function.update_of_ne hn]
      · rfl
      · rfl
      · exact ⟨⟨data, by simp, rfl⟩, by simp [YAMLState.mapping]⟩

section steps

variable {κ : Type} [DecidableEq κ] {t : InternalTopology} {k : TextKind} {r : UnitRelationState}
  {key : String → κ} {named : String → Prop} {x : RelationHookContext K V}
  {v : ContextView κ K V}

omit [DecidableEq K] [DecidableEq V] in
theorem setNode_contents (path : String) (m : YAMLNode String Unit K V)
    (hm : m.node = (x.nodes path).node) : (x.setNode path m).contents = x.contents := by
  funext p
  by_cases hp : p = path
  · simp [RelationHookContext.contents, RelationHookContext.setNode, hp, hm]
  · simp [RelationHookContext.contents, RelationHookContext.setNode, Function.update_of_ne hp]

omit [DecidableEq K] [DecidableEq V] in
theorem setNode_clients (path p : String) (m : YAMLNode String Unit K V) (n : String)
    (hm : p = path → m.clients n = (x.nodes path).clients n) :
    ((x.setNode path m).nodes p).clients n = (x.nodes p).clients n := by
  by_cases hp : p = path
  · subst hp
    simpa [RelationHookContext.setNode] using hm rfl
  · simp [RelationHookContext.setNode, Function.update_of_ne hp]

omit [DecidableEq K] [DecidableEq V] in
theorem setNode_writes (path p : String) (m : YAMLNode String Unit K V)
    (hm : m.writes () = none) (h : ∀ p, (x.nodes p).writes () = none) :
    ((x.setNode path m).nodes p).writes () = none := by
  by_cases hp : p = path
  · simp [RelationHookContext.setNode, hp, hm]
  · simp [RelationHookContext.setNode, Function.update_of_ne hp, h p]

omit [DecidableEq V] in
/-- Only the object of `unitName` has changed in a node, which is another unit's or not kept. -/
theorem caches_other (path : String) (m : YAMLNode String Unit K V) (n unitName : String)
    (hother : n ≠ unitName → m.clients n = (x.nodes path).clients n)
    (hnone : n = unitName → x.nodeCache.lookup n = none) (h : Caches t k r key x v n) :
    Caches t k r key (x.setNode path m) v n := by
  unfold Caches at h ⊢
  cases hs : v.seen (key n) with
  | none =>
    rw [hs] at h
    exact h
  | some first =>
    rw [hs] at h
    obtain ⟨p, hp, hpath, hb⟩ := h
    have hne : n ≠ unitName := by
      intro he
      rw [hnone he] at hp
      cases hp
    refine ⟨p, hp, hpath, ?_⟩
    rw [setNode_clients path p m n (fun _ => hother hne)]
    exact hb

/-- What the context and the view make of the access of a unit. -/
inductive Accessed (t : InternalTopology) (k : TextKind) (r : UnitRelationState)
    (key : String → κ) (unit : Option String) (x : RelationHookContext K V)
    (v : ContextView κ K V) : Except ContextError (String × String) →
    Except ContextError (String × (K → Option V)) → Prop where
  | raised (e : ContextError) : Accessed t k r key unit x v (.error e) (.error e)
  | found (unitName : String) (path : String) (first : K → Option V) :
      resolveUnit t r unit = .ok unitName → unitSettingsPath t k r unitName = .ok path →
      x.nodeCache.lookup unitName = some path → v.seen (key unitName) = some first →
      Buffers ((x.nodes path).clients unitName) first (v.shown t r key unitName first) →
      Accessed t k r key unit x v (.ok (unitName, path)) (.ok (unitName, first))

omit [DecidableEq V] in
theorem setup_contents (unit : Option String) :
    (setupRelationState t k r x unit).1.contents = x.contents := by
  unfold setupRelationState
  cases resolveUnit t r unit with
  | error e => rfl
  | ok unitName =>
    cases hcache : x.nodeCache.lookup unitName with
    | some path => simp only [hcache]
    | none =>
      simp only [hcache]
      cases unitSettingsPath t k r unitName with
      | error e => rfl
      | ok path =>
        obtain ⟨m, -, hnode, -, hread⟩ := readFinish_new (x.nodes path) unitName
        have hsame := setNode_contents (x := x) path m hnode
        rcases hread with ⟨-, hread⟩ | ⟨data, -, hread, -⟩
        · simp only [hread]
          exact hsame
        · simp only [hread]
          exact hsame

omit [DecidableEq V] in
theorem setup_follows (hd : Distinct t r key named) (unit : Option String)
    (hunit : ∀ n ∈ unit, named n) (h : Follows t k r key named x v) :
    Follows t k r key named (setupRelationState t k r x unit).1 (v.access t k r key unit).1 ∧
      Accessed t k r key unit (setupRelationState t k r x unit).1 (v.access t k r key unit).1
        (setupRelationState t k r x unit).2 (v.access t k r key unit).2 ∧
      (v.access t k r key unit).1.edits = v.edits ∧
      (v.access t k r key unit).1.written = v.written := by
  unfold setupRelationState ContextView.access
  cases hu : resolveUnit t r unit with
  | error e => exact ⟨h, .raised e, rfl, rfl⟩
  | ok unitName =>
    have hnamed : named unitName := by
      cases unit with
      | none => exact hd.own unitName hu
      | some n =>
        obtain rfl := Except.ok.inj hu
        exact hunit n rfl
    have hc := h.caches unitName hnamed
    unfold Caches at hc
    cases hs : v.seen (key unitName) with
    | some first =>
      rw [hs] at hc
      obtain ⟨path, hcache, hpath, hb⟩ := hc
      simp only [hcache, hs]
      exact ⟨h, .found unitName path first hu hpath hcache hs hb, trivial, trivial⟩
    | none =>
      rw [hs] at hc
      obtain ⟨hcache, hedits⟩ := hc
      simp only [hcache, hs]
      cases hpath : unitSettingsPath t k r unitName with
      | error e => exact ⟨h, .raised e, rfl, rfl⟩
      | ok path =>
        have hcontent : (x.nodes path).node = v.contents path := congrFun h.contents path
        obtain ⟨m, hother, hnode, hwrites, hread⟩ := readFinish_new (x.nodes path) unitName
        have hidle (p : String) : ((x.setNode path m).nodes p).writes () = none :=
          setNode_writes path p m (hwrites ▸ h.idle.2 path) h.idle.2
        have hsame := setNode_contents (x := x) path m hnode
        have hothers (n : String) (hn : named n) : Caches t k r key (x.setNode path m) v n :=
          caches_other path m n unitName (hother n) (fun he => he ▸ hcache) (h.caches n hn)
        rcases hread with ⟨hnone, hread⟩ | ⟨data, hdata, hread, hb⟩
        · rw [hnone] at hcontent
          simp only [hread, ← hcontent]
          exact ⟨⟨hsame.trans h.contents, hothers, h.written, h.unwritten, h.idle.1, hidle⟩,
            .raised _, trivial, trivial⟩
        · rw [hdata] at hcontent
          simp only [hread, ← hcontent]
          have hshown : v.shown t r key unitName (data.lookup ·) = (data.lookup ·) := by
            unfold ContextView.shown
            by_cases hown : ownKey t r key = .ok (key unitName)
            · rw [if_pos hown, hedits hown]
              rfl
            · rw [if_neg hown]
          have hbuffers : Buffers (((x.setNode path m).nodes path).clients unitName)
              (data.lookup ·) (v.shown t r key unitName (data.lookup ·)) := by
            rw [hshown]
            simpa [RelationHookContext.setNode] using hb
          refine ⟨⟨hsame.trans h.contents, fun n hn => ?_, h.written, h.unwritten, h.idle.1, hidle⟩,
            .found unitName path _ hu hpath ?_ ?_ hbuffers, trivial, trivial⟩
          · by_cases he : n = unitName
            · subst he
              unfold Caches
              simp only [Function.update_self]
              refine ⟨path, ?_, hpath, hbuffers⟩
              rw [Dict.lookup_insert, if_pos rfl]
            · have hkey : key n ≠ key unitName :=
                fun hkey => he (hd.apart n unitName hn hnamed hkey)
              have hold := hothers n hn
              unfold Caches at hold ⊢
              simp only [Function.update_of_ne hkey, Dict.lookup_insert, if_neg he]
              exact hold
          · rw [Dict.lookup_insert, if_pos rfl]
          · simp

/-- A change of a node's object that makes the local writes `edits`, and nothing else. -/
structure MakesEdits (f : YAMLNode String Unit K V → String → YAMLNode String Unit K V)
    (edits : List (Edit K V)) : Prop where
  node : ∀ m n, (f m n).node = m.node
  writes : ∀ m n, (f m n).writes = m.writes
  other : ∀ m n n', n' ≠ n → (f m n).clients n' = m.clients n'
  buffers : ∀ m n first shown, Buffers (m.clients n) first shown →
    Buffers ((f m n).clients n) first (overlay shown edits)

omit [DecidableEq V] in
theorem edit_buffers (s : YAMLState K V) (f : Dict K V → Dict K V) (e : Edit K V)
    (first shown : K → Option V) (h : Buffers s first shown)
    (hf : ∀ d, ((f d).lookup ·) = e.apply (d.lookup ·)) :
    Buffers (s.edit f) first (overlay shown [e]) := by
  refine ⟨h.pristine, ?_⟩
  have hmapping : (s.edit f).mapping = f s.mapping := by
    simp [YAMLState.edit, YAMLState.mapping]
  rw [hmapping, hf, h.mapping]
  rfl

omit [DecidableEq V] in
theorem setItem_makesEdits (key : K) (value : V) :
    MakesEdits (fun m n => (setItem m n key value).1) [.put key value] := by
  constructor
  · intro m n
    simp only [setItem]
    split <;> rfl
  · intro m n
    simp only [setItem]
    split <;> rfl
  · intro m n n' hn
    simp only [setItem]
    split
    · rfl
    · simp [YAMLNode.setClient, Function.update_of_ne hn]
  · intro m n first shown h
    obtain ⟨pristine, hp, -⟩ := h.pristine
    have hedit := edit_buffers (m.clients n) (fun d => d.insert key value) (.put key value)
      first shown h (fun d => by
        funext k
        simp only [Dict.lookup_insert, Edit.apply, Function.update_apply])
    simpa [setItem, hp, YAMLNode.setClient] using hedit

omit [DecidableEq V] in
theorem delItem_makesEdits (key : K) :
    MakesEdits (fun (m : YAMLNode String Unit K V) n => (delItem m n key).1)
      [.remove key] := by
  constructor
  · intro m n
    simp only [delItem]
    split
    · rfl
    · split <;> rfl
  · intro m n
    simp only [delItem]
    split
    · rfl
    · split <;> rfl
  · intro m n n' hn
    simp only [delItem]
    split
    · rfl
    · split
      · simp [YAMLNode.setClient, Function.update_of_ne hn]
      · rfl
  · intro m n first shown h
    obtain ⟨pristine, hp, -⟩ := h.pristine
    by_cases hin : key ∈ (m.clients n).mapping
    · have hedit := edit_buffers (m.clients n) (fun d => d.erase key) (.remove key)
        first shown h (fun d => by
          funext k
          simp only [Dict.lookup_erase, Edit.apply, Function.update_apply])
      simpa [delItem, hp, hin, YAMLNode.setClient] using hedit
    · have habsent : (m.clients n).mapping.lookup key = none := AList.lookup_eq_none.mpr hin
      have hsame : overlay shown [.remove key] = shown := by
        rw [← h.mapping]
        show Function.update (fun k => (m.clients n).mapping.lookup k) key none = _
        rw [← habsent]
        exact Function.update_eq_self key _
      rw [hsame]
      simpa [delItem, hp, hin] using h

omit [DecidableEq V] in
theorem foldl_makesEdits (entries : List (Sigma fun _ : K => V)) :
    MakesEdits (fun (m : YAMLNode String Unit K V) n =>
        entries.foldl (fun m e => (setItem m n e.1 e.2).1) m)
      (entries.map fun e => .put e.1 e.2) := by
  induction entries with
  | nil => exact ⟨fun _ _ => rfl, fun _ _ => rfl, fun _ _ _ _ => rfl, fun _ _ _ _ => id⟩
  | cons e entries ih =>
    have hone := setItem_makesEdits e.1 e.2
    constructor
    · intro m n
      exact (ih.node _ n).trans (hone.node m n)
    · intro m n
      exact (ih.writes _ n).trans (hone.writes m n)
    · intro m n n' hn
      exact (ih.other _ n n' hn).trans (hone.other m n n' hn)
    · intro m n first shown h
      exact ih.buffers _ n first _ (hone.buffers m n first shown h)

/-- What the two sides return. -/
def lookups : ContextResult (Dict K V) V → ContextResult (K → Option V) V :=
  ContextResult.map fun d => (d.lookup ·)

omit [DecidableEq V] in
theorem edit_contents (f : YAMLNode String Unit K V → String → YAMLNode String Unit K V)
    (edits : List (Edit K V)) (hf : MakesEdits f edits) :
    (contextEdit t k r x f).1.contents = x.contents := by
  have hsetup := setup_contents (t := t) (k := k) (r := r)
    (x := { x with needsFlushing := true }) none
  unfold contextEdit
  generalize setupRelationState t k r { x with needsFlushing := true } none = out at *
  obtain ⟨x', outcome⟩ := out
  cases outcome with
  | error e => exact hsetup
  | ok found =>
    exact (setNode_contents (x := x') found.2 _ (hf.node _ _)).trans hsetup

omit [DecidableEq V] in
theorem get_contents (unit : Option String) :
    (contextGet t k r x unit).1.contents = x.contents := by
  have hsetup := setup_contents (t := t) (k := k) (r := r) (x := x) unit
  unfold contextGet
  generalize setupRelationState t k r x unit = out at *
  obtain ⟨x', outcome⟩ := out
  cases outcome with
  | error e => exact hsetup
  | ok found => exact hsetup

omit [DecidableEq V] in
/-- No call changes a settings node. -/
theorem call_contents (blank : V) (c : ContextCall K V) :
    (contextCall t k r blank x c).1.contents = x.contents := by
  cases c with
  | get unit =>
    have hget := get_contents (t := t) (k := k) (r := r) (x := x) unit
    simp only [contextCall]
    generalize contextGet t k r x unit = out at *
    obtain ⟨x', outcome⟩ := out
    cases outcome with
    | error e => exact hget
    | ok settings => exact hget
  | getValue unit item =>
    have hget := get_contents (t := t) (k := k) (r := r) (x := x) unit
    simp only [contextCall]
    generalize contextGet t k r x unit = out at *
    obtain ⟨x', outcome⟩ := out
    cases outcome with
    | error e => exact hget
    | ok settings => exact hget
  | set data =>
    cases data with
    | none => rfl
    | some data => exact edit_contents _ _ (foldl_makesEdits data.entries)
  | setValue item value => exact edit_contents _ _ (setItem_makesEdits item value)
  | deleteValue item => exact edit_contents _ _ (delItem_makesEdits item)

omit [DecidableEq κ] in
/-- The own unit is known by the key that None leads to, and no other unit that is named. -/
theorem ownKey_iff (hd : Distinct t r key named) (own n : String)
    (hown : resolveUnit t r none = .ok own) (hn : named n) :
    ownKey t r key = .ok (key n) ↔ n = own := by
  rw [ownKey, hown, Except.map, Except.ok.injEq]
  constructor
  · intro he
    exact (hd.apart own n (hd.own own hown) hn he).symm
  · rintro rfl
    rfl

omit [DecidableEq V] in
theorem edit_follows (hd : Distinct t r key named)
    (f : YAMLNode String Unit K V → String → YAMLNode String Unit K V)
    (edits : List (Edit K V)) (hf : MakesEdits f edits) (h : Follows t k r key named x v) :
    Follows t k r key named (contextEdit t k r x f).1 (v.edit t k r key edits).1 ∧
      lookups (contextEdit t k r x f).2 = (v.edit t k r key edits).2 := by
  have hwritten : Follows t k r key named { x with needsFlushing := true }
      { v with written := true } := ⟨h.contents, h.caches, rfl, nofun, h.idle⟩
  obtain ⟨hsetup, haccess, hedits, hflag⟩ := setup_follows hd none (by simp) hwritten
  unfold contextEdit ContextView.edit
  -- the setup of both sides, by its outcome
  generalize hx : setupRelationState t k r { x with needsFlushing := true } none = out at *
  generalize hv : ContextView.access t k r key { v with written := true } none = seen at *
  obtain ⟨x', outcome⟩ := out
  obtain ⟨v', shown⟩ := seen
  cases haccess with
  | raised e => exact ⟨hsetup, rfl⟩
  | found unitName path first hown hpath hcache hseen hb =>
    let m := f (x'.nodes path) unitName
    have hnode : m.node = (x'.nodes path).node := hf.node _ _
    have hsame := setNode_contents (x := x') path m hnode
    have hnamed : named unitName := hd.own unitName hown
    have hkey : ownKey t r key = .ok (key unitName) :=
      (ownKey_iff hd unitName unitName hown hnamed).mpr rfl
    have hbuffers : Buffers (((x'.setNode path m).nodes path).clients unitName) first
        (ContextView.shown t r key { v' with edits := v'.edits ++ edits } unitName first) := by
      have hafter := hf.buffers (x'.nodes path) unitName first _ hb
      simp only [ContextView.shown, if_pos hkey, overlay, List.foldl_append] at hafter ⊢
      simpa [RelationHookContext.setNode, m] using hafter
    refine ⟨⟨hsame.trans hsetup.contents, fun n hn => ?_, hsetup.written, ?_, hsetup.idle.1,
      fun p => setNode_writes path p m ((congrFun (hf.writes _ _) ()).trans (hsetup.idle.2 path))
        hsetup.idle.2⟩, rfl⟩
    · by_cases he : n = unitName
      · subst he
        have hfound : v'.seen (key n) = some first := hseen
        unfold Caches
        simp only [hfound]
        exact ⟨path, hcache, hpath, hbuffers⟩
      · have hold := caches_other path m n unitName (hf.other (x'.nodes path) unitName n)
          (fun hsame => absurd hsame he) (hsetup.caches n hn)
        have hnot : ownKey t r key ≠ .ok (key n) :=
          fun hown' => he ((ownKey_iff hd unitName n hown hn).mp hown')
        unfold Caches at hold ⊢
        cases hs : v'.seen (key n) with
        | none =>
          rw [hs] at hold
          exact ⟨hold.1, fun hown' => absurd hown' hnot⟩
        | some first' =>
          rw [hs] at hold
          simp only [ContextView.shown, if_neg hnot] at hold ⊢
          exact hold
    · intro hfalse
      rw [hflag] at hfalse
      exact nomatch hfalse

omit [DecidableEq V] in
theorem get_follows (hd : Distinct t r key named) (unit : Option String)
    (hunit : ∀ n ∈ unit, named n) (h : Follows t k r key named x v) :
    Follows t k r key named (contextGet t k r x unit).1 (v.access t k r key unit).1 ∧
      ((∃ e, (contextGet t k r x unit).2 = .error e ∧
          (v.access t k r key unit).2 = .error e) ∨
        ∃ settings unitName first, (contextGet t k r x unit).2 = .ok settings ∧
          (v.access t k r key unit).2 = .ok (unitName, first) ∧
          (settings.lookup ·) = (v.access t k r key unit).1.shown t r key unitName first) := by
  obtain ⟨hsetup, haccess, -⟩ := setup_follows hd unit hunit h
  unfold contextGet
  generalize setupRelationState t k r x unit = out at *
  generalize v.access t k r key unit = seen at *
  obtain ⟨x', outcome⟩ := out
  obtain ⟨v', shown⟩ := seen
  cases haccess with
  | raised e => exact ⟨hsetup, Or.inl ⟨e, rfl, rfl⟩⟩
  | found unitName path first hu hpath hcache hseen hb =>
    exact ⟨hsetup, Or.inr ⟨_, unitName, first, rfl, rfl, hb.mapping⟩⟩

/-- The unit that a call names. -/
def ContextCall.unit : ContextCall K V → Option String
  | .get unit => unit
  | .getValue unit _ => unit
  | _ => none

omit [DecidableEq V] in
theorem call_follows (hd : Distinct t r key named) (blank : V) (c : ContextCall K V)
    (hc : ∀ n ∈ c.unit, named n) (h : Follows t k r key named x v) :
    Follows t k r key named (contextCall t k r blank x c).1 (v.call t k r key blank c).1 ∧
      lookups (contextCall t k r blank x c).2 = (v.call t k r key blank c).2 := by
  cases c with
  | get unit =>
    obtain ⟨hget, hresult⟩ := get_follows hd unit hc h
    simp only [contextCall, ContextView.call]
    generalize contextGet t k r x unit = out at *
    generalize v.access t k r key unit = seen at *
    obtain ⟨x', outcome⟩ := out
    obtain ⟨v', shown⟩ := seen
    rcases hresult with ⟨e, rfl, rfl⟩ | ⟨settings, unitName, first, rfl, rfl, hshown⟩
    · exact ⟨hget, rfl⟩
    · exact ⟨hget, congrArg ContextResult.settings hshown⟩
  | getValue unit item =>
    obtain ⟨hget, hresult⟩ := get_follows hd unit hc h
    simp only [contextCall, ContextView.call]
    generalize contextGet t k r x unit = out at *
    generalize v.access t k r key unit = seen at *
    obtain ⟨x', outcome⟩ := out
    obtain ⟨v', shown⟩ := seen
    rcases hresult with ⟨e, rfl, rfl⟩ | ⟨settings, unitName, first, rfl, rfl, hshown⟩
    · exact ⟨hget, rfl⟩
    · refine ⟨hget, congrArg ContextResult.value ?_⟩
      have hitem : settings.lookup item = v'.shown t r key unitName first item :=
        congrFun hshown item
      rw [← hitem]
      by_cases hempty : settings.entries = []
      · rw [if_pos hempty, AList.ext (s := settings) (t := ∅) hempty]
        rfl
      · rw [if_neg hempty]
  | set data =>
    cases data with
    | none => exact ⟨h, rfl⟩
    | some data => exact edit_follows hd _ _ (foldl_makesEdits data.entries) h
  | setValue item value => exact edit_follows hd _ _ (setItem_makesEdits item value) h
  | deleteValue item => exact edit_follows hd _ _ (delItem_makesEdits item) h

omit [DecidableEq K] [DecidableEq V] in
theorem changeNode_clients (path p : String) (content : Option (Dict K V)) (n : String) :
    ((changeNode x path content).nodes p).clients n = (x.nodes p).clients n :=
  setNode_clients path p _ n (fun _ => rfl)

omit [DecidableEq K] [DecidableEq V] in
theorem changeNode_contents (path : String) (content : Option (Dict K V)) :
    (changeNode x path content).contents = Function.update x.contents path content := by
  funext p
  by_cases hp : p = path
  · simp [changeNode, RelationHookContext.contents, RelationHookContext.setNode, hp]
  · simp [changeNode, RelationHookContext.contents, RelationHookContext.setNode,
      Function.update_of_ne hp]

def ContextEvent.unit : ContextEvent K V → Option String
  | .call c => c.unit
  | .changeNode _ _ => none

omit [DecidableEq V] in
theorem changeNode_followed (path : String) (content : Option (Dict K V))
    (h : Follows t k r key named x v) : Follows t k r key named (changeNode x path content)
      { v with contents := Function.update v.contents path content } := by
  refine ⟨?_, fun n hn => ?_, h.written, h.unwritten, h.idle.1, fun p => ?_⟩
  · rw [changeNode_contents, h.contents]
  · have hold := h.caches n hn
    unfold Caches at hold ⊢
    cases hs : v.seen (key n) with
    | none =>
      rw [hs] at hold
      exact hold
    | some first =>
      rw [hs] at hold
      obtain ⟨p, hp, hpath, hb⟩ := hold
      refine ⟨p, hp, hpath, ?_⟩
      rw [changeNode_clients]
      exact hb
  · exact setNode_writes path p _ (h.idle.2 path) h.idle.2

omit [DecidableEq V] in
theorem event_follows (hd : Distinct t r key named) (blank : V) (e : ContextEvent K V)
    (he : ∀ n ∈ e.unit, named n) (h : Follows t k r key named x v) :
    Follows t k r key named (contextEvent t k r blank x e).1 (v.event t k r key blank e).1 ∧
      (contextEvent t k r blank x e).2.map lookups = (v.event t k r key blank e).2 := by
  cases e with
  | call c =>
    obtain ⟨hcall, hresult⟩ := call_follows hd blank c he h
    exact ⟨hcall, congrArg some hresult⟩
  | changeNode path content => exact ⟨changeNode_followed path content h, rfl⟩

omit [DecidableEq V] in
theorem run_follows (hd : Distinct t r key named) (blank : V) (events : List (ContextEvent K V))
    (hnamed : ∀ e ∈ events, ∀ n ∈ e.unit, named n) (h : Follows t k r key named x v) :
    Follows t k r key named (contextRun t k r blank x events).1 (v.run t k r key blank events).1 ∧
      (contextRun t k r blank x events).2.map (Option.map lookups) =
        (v.run t k r key blank events).2 := by
  induction events generalizing x v with
  | nil => exact ⟨h, rfl⟩
  | cons e events ih =>
    obtain ⟨hone, hresult⟩ := event_follows hd blank e (hnamed e (by simp)) h
    obtain ⟨hrest, hresults⟩ := ih (fun e' he' => hnamed e' (by simp [he'])) hone
    refine ⟨hrest, ?_⟩
    simp only [contextRun, ContextView.run, List.map_cons, hresult, hresults]

omit [DecidableEq V] in
theorem newContext_follows (contents : String → Option (Dict K V)) :
    Follows t k r key named (newContext contents) (newView contents) := by
  refine ⟨rfl, fun n _ => ?_, rfl, fun _ => rfl, rfl, fun _ => rfl⟩
  simp [Caches, newView, newContext]

/-- The one settings node is given the merge of the snapshot `first`, what is `shown`, and what
it had. -/
def MergedAt (x x' : RelationHookContext K V) (path : String) (first shown : K → Option V) :
    Prop :=
  ∃ data, x'.contents = Function.update x.contents path (some data) ∧
    (data.lookup ·) = threeWay first shown (((x.contents path).getD ∅).lookup ·)

/-- A flush under way, or over. -/
structure Flushing (x : RelationHookContext K V) (path : String) (first shown : K → Option V) :
    Prop where
  only : x.flushing = none ∨ x.flushing = some path
  write : x.flushing = some path → ∃ p, (x.nodes path).writes () = some p ∧
    (p.pristine.lookup ·) = first ∧
    ((((x.nodes path).clients p.client).caches p.cache).lookup ·) = shown ∧
    ∀ a, p.attempt = some a → (a.content.lookup ·) = threeWay first shown (a.current.lookup ·) ∧
      a.version ≤ (x.nodes path).version ∧
      (a.version = (x.nodes path).version → a.current = (x.nodes path).content)

theorem flushStart_follows (hd : Distinct t r key named) (h : Follows t k r key named x v) :
    (flushStart t k r x).1.contents = x.contents ∧
      ((v.written = false ∧ (flushStart t k r x).1.flushing = none) ∨
        v.written = true ∧
          ((∃ e, (v.access t k r key none).2 = .error e ∧ (flushStart t k r x).1.flushing = none) ∨
            ∃ own path first, (v.access t k r key none).2 = .ok (own, first) ∧
              resolveUnit t r none = .ok own ∧ unitSettingsPath t k r own = .ok path ∧
              (flushStart t k r x).1.flushing = some path ∧
              Flushing (flushStart t k r x).1 path first (overlay first v.edits))) := by
  unfold flushStart
  cases hw : v.written with
  | false =>
    have hnot : ¬ x.needsFlushing = true := by simp [h.written, hw]
    rw [if_neg hnot]
    exact ⟨rfl, Or.inl ⟨rfl, h.idle.1⟩⟩
  | true =>
    have hneeds : x.needsFlushing = true := h.written.trans hw
    obtain ⟨hsetup, haccess, hedits, -⟩ := setup_follows hd none (by simp) h
    have hcontents := setup_contents (t := t) (k := k) (r := r) (x := x) none
    rw [if_pos hneeds]
    generalize setupRelationState t k r x none = out at *
    generalize v.access t k r key none = seen at *
    obtain ⟨x', outcome⟩ := out
    obtain ⟨v', shown⟩ := seen
    cases haccess with
    | raised e => exact ⟨hcontents, Or.inr ⟨rfl, Or.inl ⟨e, rfl, hsetup.idle.1⟩⟩⟩
    | found own path first hown hpath hcache hseen hb =>
      obtain ⟨pristine, hp, hfirst⟩ := hb.pristine
      have hpristine : ((x'.nodes path).clients own).pristineCache = some pristine := hp
      have hidle : (x'.nodes path).writes () = none := hsetup.idle.2 path
      have hshown : (((x'.nodes path).clients own).mapping.lookup ·) =
          overlay first v.edits := by
        have hmapping := hb.mapping
        rw [ContextView.shown, if_pos ((ownKey_iff hd own own hown (hd.own own hown)).mpr rfl)]
          at hmapping
        exact hedits ▸ hmapping
      have hnode : (writeStart (x'.nodes path) own ()).1.node = (x'.nodes path).node := by
        simp [writeStart, hidle, hpristine, YAMLNode.setWrite, YAMLNode.setClient]
      refine ⟨(setNode_contents (x := x') path _ hnode).trans hcontents, Or.inr ⟨rfl, Or.inr
        ⟨own, path, first, rfl, hown, hpath, rfl, Or.inr rfl, fun _ => ?_⟩⟩⟩
      refine ⟨⟨own, pristine, ((x'.nodes path).clients own).cache, none⟩, ?_, hfirst, ?_, nofun⟩
      · simp [RelationHookContext.setNode, writeStart, hidle, hpristine, YAMLNode.setWrite,
          YAMLNode.setClient]
      · rw [← hshown]
        simp [RelationHookContext.setNode, writeStart, hidle, hpristine, YAMLNode.setWrite,
          YAMLNode.setClient, YAMLState.mapping]

section flush

variable {path : String} {first shown : K → Option V} (h : Flushing x path first shown)
include h

theorem attempt_flushing : Flushing (flushStep x .attempt) path first shown := by
  unfold flushStep
  rcases h.only with hnone | hsome
  · simpa [hnone] using h
  · obtain ⟨p, hp, hpristine, hcache, -⟩ := h.write hsome
    simp only [hsome, attemptWrite, hp]
    refine ⟨Or.inr hsome, fun _ => ?_⟩
    let a : Attempt K V :=
      let cache := ((x.nodes path).clients p.client).caches p.cache
      let applied := applyChanges p.pristine cache (x.nodes path).content
      ⟨(x.nodes path).version, (x.nodes path).content, cache, applied.1, applied.2⟩
    refine ⟨{ p with attempt := some a }, ?_, hpristine, ?_, ?_⟩
    · simp [RelationHookContext.setNode, YAMLNode.setWrite, a]
    · simpa [RelationHookContext.setNode, YAMLNode.setWrite] using hcache
    · intro b hb
      obtain rfl : a = b := Option.some.inj hb
      refine ⟨?_, ?_, fun _ => ?_⟩
      · rw [← hpristine, ← hcache]
        exact applyChanges_lookup _ _ _
      · simp [RelationHookContext.setNode, YAMLNode.setWrite, a]
      · simp [RelationHookContext.setNode, YAMLNode.setWrite, YAMLNode.content, a]

theorem changeNode_flushing (p' : String) (content : Option (Dict K V)) :
    Flushing (changeNode x p' content) path first shown := by
  refine ⟨h.only, fun hsome => ?_⟩
  obtain ⟨p, hp, hpristine, hcache, hattempt⟩ := h.write hsome
  by_cases hpath : p' = path
  · subst hpath
    refine ⟨p, ?_, hpristine, ?_, fun a ha => ?_⟩
    · simpa [changeNode, RelationHookContext.setNode] using hp
    · rw [changeNode_clients]
      exact hcache
    · obtain ⟨hmerge, hle, -⟩ := hattempt a ha
      simp only [changeNode, RelationHookContext.setNode, Function.update_self]
      exact ⟨hmerge, by omega, fun he => by omega⟩
  · have hsame : (changeNode x p' content).nodes path = x.nodes path := by
      simp [changeNode, RelationHookContext.setNode, Function.update_of_ne (Ne.symm hpath)]
    rw [hsame]
    exact ⟨p, hp, hpristine, hcache, hattempt⟩

/-- A commit keeps the flush going, or ends it with the merge. -/
theorem commit_flushing : Flushing (flushStep x .commit) path first shown ∧
    (((flushStep x .commit).contents = x.contents ∧
        (flushStep x .commit).flushing = x.flushing) ∨
      x.flushing = some path ∧ (flushStep x .commit).flushing = none ∧
        MergedAt x (flushStep x .commit) path first shown) := by
  unfold flushStep
  rcases h.only with hnone | hsome
  · simp only [hnone]
    exact ⟨h, Or.inl ⟨trivial, trivial⟩⟩
  · obtain ⟨p, hp, hpristine, hcache, hattempt⟩ := h.write hsome
    cases ha : p.attempt with
    | none =>
      simp only [hsome, commitWrite, hp, ha]
      have hsame : x.setNode path (x.nodes path) = x := by
        simp [RelationHookContext.setNode]
      simp only [hsame]
      exact ⟨⟨Or.inr rfl, fun _ => ⟨p, hp, hpristine, hcache, hattempt⟩⟩, Or.inl ⟨rfl, rfl⟩⟩
    | some a =>
      obtain ⟨hmerge, -, hcurrent⟩ := hattempt a ha
      by_cases hversion : a.version = (x.nodes path).version
      · simp only [hsome, commitWrite, hp, ha, if_pos hversion]
        refine ⟨⟨Or.inl rfl, nofun⟩, Or.inr ⟨trivial, rfl, a.content, ?_, ?_⟩⟩
        · funext p
          by_cases hpath : p = path
          · simp [RelationHookContext.contents, RelationHookContext.setNode, hpath]
          · simp [RelationHookContext.contents, RelationHookContext.setNode,
              Function.update_of_ne hpath]
        · rw [hmerge, hcurrent hversion]
          rfl
      · simp only [hsome, commitWrite, hp, ha, if_neg hversion]
        refine ⟨⟨Or.inr rfl, fun _ => ⟨{ p with attempt := none }, ?_, hpristine, ?_, nofun⟩⟩,
          Or.inl ⟨setNode_contents (x := x) path _ rfl, rfl⟩⟩
        · simp [RelationHookContext.setNode, YAMLNode.setWrite]
        · simpa [RelationHookContext.setNode, YAMLNode.setWrite] using hcache

theorem attempt_contents : (flushStep x .attempt).contents = x.contents := by
  unfold flushStep
  rcases h.only with hnone | hsome
  · simp [hnone]
  · obtain ⟨p, hp, -⟩ := h.write hsome
    simp only [hsome, attemptWrite, hp]
    exact setNode_contents (x := x) path _ rfl

/-- A round that nobody interferes with is the last. -/
theorem attempt_commit_flushing :
    (flushStep (flushStep x .attempt) .commit).flushing = none := by
  rcases h.only with hnone | hsome
  · simp [flushStep, hnone]
  · obtain ⟨p, hp, -⟩ := h.write hsome
    simp [flushStep, hsome, attemptWrite, commitWrite, hp, RelationHookContext.setNode,
      YAMLNode.setWrite]

theorem events_flushing (waits : List (FlushEvent K V)) :
    Flushing (waits.foldl flushEvent x) path first shown := by
  induction waits generalizing x with
  | nil => exact h
  | cons e waits ih =>
    refine ih ?_
    cases e with
    | step s =>
      cases s with
      | attempt => exact attempt_flushing h
      | commit => exact (commit_flushing h).1
    | changeNode p content => exact changeNode_flushing h p content

end flush

theorem idle_flushing (waits : List (FlushEvent K V)) (h : x.flushing = none) :
    (waits.foldl flushEvent x).flushing = none := by
  induction waits generalizing x with
  | nil => exact h
  | cons e waits ih =>
    refine ih ?_
    cases e with
    | step s => cases s <;> simp [flushEvent, flushStep, h]
    | changeNode p content => exact h

/-- Of the texts that the calls name a unit by, and the own unit's name, no two lead to one unit. -/
def Unaliased (t : InternalTopology) (k : TextKind) (r : UnitRelationState)
    (events : List (ContextEvent K V)) : Prop :=
  ∀ n m unitId, resolveUnit t r none = .ok n ∨ some n ∈ events.map ContextEvent.unit →
    resolveUnit t r none = .ok m ∨ some m ∈ events.map ContextEvent.unit →
    t.getServiceUnitIdFromName k n = .ok (some unitId) →
    t.getServiceUnitIdFromName k m = .ok (some unitId) → n = m

theorem byUnit_eq (n m : String) (h : byUnit t k n = byUnit t k m) :
    n = m ∨ ∃ unitId, t.getServiceUnitIdFromName k n = .ok (some unitId) ∧
      t.getServiceUnitIdFromName k m = .ok (some unitId) := by
  unfold byUnit at h
  split at h
  · rename_i unitId hn
    split at h
    · rename_i unitId' hm
      exact Or.inr ⟨unitId, hn, Sum.inl.inj h ▸ hm⟩
    · cases h
  · split at h
    · cases h
    · exact Or.inl (Sum.inr.inj h)

/-- The name that None stands for is of the context's own unit. -/
theorem resolveUnit_own (h : Integrity t)
    (hnames : ∀ serviceId service, t.services.lookup serviceId = some service →
      '/' ∉ service.name.toList)
    (hunit : ∃ serviceId service unit, t.services.lookup serviceId = some service ∧
      service.units.lookup r.internalUnitId = some unit)
    (own : String) (hown : resolveUnit t r none = .ok own) :
    byUnit t k own = .inl r.internalUnitId := by
  obtain ⟨serviceId, service, unit, hs, hu⟩ := hunit
  obtain ⟨sequence, hn, hname⟩ :=
    getServiceUnitName_unit h serviceId r.internalUnitId service unit hs hu
  have hservice := getServiceUnitService_unit h serviceId r.internalUnitId service unit hs hu
  have hfound : unitName service.name sequence = own := by
    simpa [resolveUnit, read, InternalTopology.getServiceUnitNameFromId,
      bind_of_ok _ _ _ _ _ hservice, hname] using hown
  have hlookup := getServiceUnitIdFromName_unitName h k serviceId r.internalUnitId service unit
    sequence hs hu hn (hnames serviceId service hs)
  rw [hfound] at hlookup
  simp [byUnit, hlookup]

/-- Where no unit is named in two ways, the reads of a context are those of its view, its calls
change no settings node, and its flush changes its own unit's alone, to the merge of the snapshot,
the local writes and what the node has by then, if there was a write. -/
theorem context_isolated (blank : V) (contents : String → Option (Dict K V))
    (events : List (ContextEvent K V)) (waits : List (FlushEvent K V))
    (hnames : Unaliased t k r events) :
    let x := (contextRun t k r blank (newContext contents) events).1
    let v := ((newView contents).run t k r (byUnit t k) blank events).1
    let y := waits.foldl flushEvent (flushStart t k r x).1
    (Integrity t → (∀ serviceId service, t.services.lookup serviceId = some service →
        '/' ∉ service.name.toList) →
      (∃ serviceId service unit, t.services.lookup serviceId = some service ∧
        service.units.lookup r.internalUnitId = some unit) →
      ∀ own, resolveUnit t r none = .ok own → byUnit t k own = .inl r.internalUnitId) ∧
    (contextRun t k r blank (newContext contents) events).2.map (Option.map lookups) =
      ((newView contents).run t k r (byUnit t k) blank events).2 ∧
    (∀ c, (contextCall t k r blank x c).1.contents = x.contents) ∧
    (flushStart t k r x).1.contents = x.contents ∧
    (v.written = false → y.flushing = none) ∧
    (v.written = true → ∀ own first, (v.access t k r (byUnit t k) none).2 = .ok (own, first) →
      ∃ path, unitSettingsPath t k r own = .ok path ∧
        (flushStart t k r x).1.flushing = some path) ∧
    (flushStep y .attempt).contents = y.contents ∧
    (((flushStep y .commit).contents = y.contents ∧
        (flushStep y .commit).flushing = y.flushing) ∨
      v.written = true ∧ (flushStep y .commit).flushing = none ∧
        ∃ own path first, (v.access t k r (byUnit t k) none).2 = .ok (own, first) ∧
          resolveUnit t r none = .ok own ∧ unitSettingsPath t k r own = .ok path ∧
          MergedAt y (flushStep y .commit) path first (overlay first v.edits)) ∧
    (flushStep (flushStep y .attempt) .commit).flushing = none := by
  intro x v y
  let named (n : String) : Prop :=
    resolveUnit t r none = .ok n ∨ some n ∈ events.map ContextEvent.unit
  have hd : Distinct t r (byUnit t k) named := by
    refine ⟨fun own => Or.inl, fun n m hn hm he => ?_⟩
    rcases byUnit_eq n m he with hsame | ⟨unitId, hn', hm'⟩
    · exact hsame
    · exact hnames n m unitId hn hm hn' hm'
  have hnew : Follows t k r (byUnit t k) named (newContext contents) (newView contents) :=
    newContext_follows contents
  obtain ⟨hx, hresults⟩ := run_follows hd blank events
    (fun e he n hn => Or.inr (List.mem_map.mpr ⟨e, he, hn⟩)) hnew
  obtain ⟨hstart, hcases⟩ := flushStart_follows hd hx
  have hidle (hnone : (flushStart t k r x).1.flushing = none) : y.flushing = none :=
    idle_flushing waits hnone
  refine ⟨resolveUnit_own, hresults, fun c => call_contents blank c, hstart, ?_, ?_, ?_⟩
  · intro hw
    rcases hcases with ⟨-, hnone⟩ | ⟨hw', -⟩
    · exact hidle hnone
    · exact absurd (hw.symm.trans hw') (by decide)
  · intro hw own first haccess
    rcases hcases with ⟨hw', -⟩ | ⟨-, ⟨e, he, -⟩ | ⟨own', path, first', hok, -, hpath, hflush, -⟩⟩
    · exact absurd (hw'.symm.trans hw) (by decide)
    · exact absurd (he.symm.trans haccess) (by simp)
    · have hboth := Prod.mk.inj (Except.ok.inj (hok.symm.trans haccess))
      exact ⟨path, hboth.1 ▸ hpath, hflush⟩
  · have hover (hnone : y.flushing = none) : (flushStep y .attempt).contents = y.contents ∧
        ((flushStep y .commit).contents = y.contents ∧
          (flushStep y .commit).flushing = y.flushing) ∧
        (flushStep (flushStep y .attempt) .commit).flushing = none := by
      simp [flushStep, hnone]
    rcases hcases with ⟨-, hnone⟩ | ⟨hw, ⟨e, -, hnone⟩ |
        ⟨own, path, first, hok, hown, hpath, -, hflush⟩⟩
    · obtain ⟨hattempt, hcommit, hlast⟩ := hover (hidle hnone)
      exact ⟨hattempt, Or.inl hcommit, hlast⟩
    · obtain ⟨hattempt, hcommit, hlast⟩ := hover (hidle hnone)
      exact ⟨hattempt, Or.inl hcommit, hlast⟩
    · have hy : Flushing y path first (overlay first v.edits) := events_flushing hflush waits
      refine ⟨attempt_contents hy, ?_, attempt_commit_flushing hy⟩
      rcases (commit_flushing hy).2 with hsame | ⟨-, hnone, hmerged⟩
      · exact Or.inl hsame
      · exact Or.inr ⟨hw, hnone, own, path, first, hok, hown, hpath, hmerged⟩

end steps

/-- The unit of a topology with one unit, in a relation of global scope. -/
def wordpressInRelation : UnitRelationState := ⟨"service-0", "unit-0", "relation-0", "global"⟩

/-- Its settings node is empty. -/
def wordpressSettings (path : String) : Option (Dict String String) :=
  if path = "/relations/relation-0/settings/unit-0" then some ∅ else none

theorem context_isolated_wordpress :
    let t := wordpressCalls.foldl call freshTopology
    let events : List (ContextEvent String String) :=
      [.call (.setValue "url" "/"), .call (.getValue (some "wordpress/0") "url")]
    (contextRun t .bytes wordpressInRelation "" (newContext wordpressSettings) events).2.map
        (Option.map lookups) =
      ((newView wordpressSettings).run t .bytes wordpressInRelation (byUnit t .bytes) ""
        events).2 := by
  intro t events
  have hown : resolveUnit t wordpressInRelation none = .ok "wordpress/0" := by decide
  have hnames : Unaliased t .bytes wordpressInRelation events := by
    have hsame (n : String) (hn : resolveUnit t wordpressInRelation none = .ok n ∨
        some n ∈ events.map ContextEvent.unit) : n = "wordpress/0" := by
      rcases hn with hn | hn
      · exact Except.ok.inj (hn.symm.trans hown)
      · simpa [events, ContextEvent.unit, ContextCall.unit] using hn
    intro n m unitId hn hm _ _
    rw [hsame n hn, hsame m hm]
  exact (context_isolated "" wordpressSettings events [] hnames).2.1

def ContextResult.value? {S V : Type} : ContextResult S V → Option V
  | .value v => some v
  | _ => none

/-- A hook that has set a value and asks for it under another text of its own unit's name is given
what the node has. -/
theorem context_alias_escapes :
    let t := wordpressCalls.foldl call freshTopology
    let events : List (ContextEvent String String) :=
      [.call (.setValue "url" "/"), .call (.getValue (some "wordpress/00") "url")]
    t.getServiceUnitIdFromName .bytes "wordpress/00" = .ok (some "unit-0") ∧
    (contextRun t .bytes wordpressInRelation "" (newContext wordpressSettings) events).2.map
        (Option.map lookups) ≠
      ((newView wordpressSettings).run t .bytes wordpressInRelation (byUnit t .bytes) ""
        events).2 := by
  refine ⟨by decide, fun h => ?_⟩
  have hvalues := congrArg (fun results => results.map fun result =>
    result.bind ContextResult.value?) h
  exact absurd hvalues (by decide)

end Juju.State
