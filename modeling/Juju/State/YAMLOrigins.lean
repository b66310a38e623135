import Juju.State.YAMLMerge
import Mathlib.Data.List.Induction

namespace Juju.State
open Juju.Base

variable {C W K V : Type} [DecidableEq K] [DecidableEq V]

/-- What a client has by its own calls: the content that it read last, or wrote since, and what
it has made of it by setting and deleting keys. -/
structure LocalCopy (K V : Type) where
  pristine : K → Option V
  cache : K → Option V

/-- The object of `c` gets a new dictionary: `read` begins, or its reply has a content. -/
def Rebinds (m : YAMLNode C W K V) (c : C) : YAMLAction C W K V → Prop
  | .readStart c' => c' = c
  | .readFinish c' _ => c' = c ∧ (m.clients c).reads ≠ 0 ∧ m.content.entries ≠ []
  | _ => False

variable [DecidableEq C] [DecidableEq W]

/-- What a call makes of the client's copy, by what the call is for. -/
def localStep (c : C) (m : YAMLNode C W K V) (l : Option (LocalCopy K V)) :
    YAMLAction C W K V → Option (LocalCopy K V)
  | .readStart c' => if c' = c then some ⟨fun _ => none, fun _ => none⟩ else l
  | .readFinish c' _ =>
    if c' = c ∧ (m.clients c).reads ≠ 0 ∧ m.content.entries ≠ [] then
      some ⟨(m.content.lookup ·), (m.content.lookup ·)⟩
    else l
  | .setItem c' key value =>
    if c' = c then l.map fun l => { l with cache := Function.update l.cache key (some value) }
    else l
  | .delItem c' key =>
    if c' = c then l.map fun l => { l with cache := Function.update l.cache key none } else l
  | .writeStart c' w =>
    if c' = c ∧ (m.writes w).isNone then l.map fun l => ⟨l.cache, l.cache⟩ else l
  | _ => l

/-- The copy that `c` has after these steps, from the calls alone. -/
def localCopy (node : Option (Dict K V)) (c : C) (actions : List (YAMLAction C W K V)) :
    Option (LocalCopy K V) :=
  (actions.foldl (fun ml a => ((yamlStep ml.1 a).1, localStep c ml.1 ml.2 a))
    (newYAMLNode node, none)).2

/-- The node after these steps. -/
abbrev nodeAfter (node : Option (Dict K V)) (actions : List (YAMLAction C W K V)) :
    YAMLNode C W K V := yamlRun (newYAMLNode node) actions

section held

variable (node : Option (Dict K V)) (c : C) (w : W)
  (before since : List (YAMLAction C W K V))

/-- A write `w` that `c` starts after `before` is under way in all that comes `since`. -/
structure UnderWay : Prop where
  free : ((nodeAfter node before).writes w).isNone
  writing : ∀ done, done <+: since →
    ((nodeAfter node (before ++ .writeStart c w :: done)).writes w).isSome

/-- The client's cache at `write()`, as it has been edited since, up to a read that gives the
client another one. -/
structure HeldUntil (kept rest : List (YAMLAction C W K V)) (cache : K → Option V) : Prop where
  bound : ∀ done a, done ++ [a] <+: kept →
    ¬ Rebinds (nodeAfter node (before ++ .writeStart c w :: done)) c a
  rebound : ∀ a, rest.head? = some a →
    Rebinds (nodeAfter node (before ++ .writeStart c w :: kept)) c a
  cache : ∃ l, localCopy node c (before ++ .writeStart c w :: kept) = some l ∧ cache = l.cache

/-- The two dictionaries of the write: the pristine copy of its client at `write()`, and the
client's cache of then. -/
structure Held (pristine cache : K → Option V) : Prop where
  pristine : ∃ l, localCopy node c before = some l ∧ pristine = l.pristine
  cache : ∃ kept rest, since = kept ++ rest ∧ HeldUntil node c w before kept rest cache

end held

/-- A commit is the end of a write: its dictionaries are those of its client, and the content it
was applied to is the node's, at the last attempt before the commit. -/
def Originates (node : Option (Dict K V)) (actions : List (YAMLAction C W K V))
    (e : Commit C K V) : Prop :=
  ∃ w before since waited rest,
    actions = before ++ .writeStart e.client w ::
      (since ++ .attempt w :: (waited ++ .commit w :: rest)) ∧
    .attempt w ∉ waited ∧
    UnderWay node e.client w before (since ++ .attempt w :: waited) ∧
    Held node e.client w before since (e.pristine.lookup ·) (e.attempt.cache.lookup ·) ∧
    e.attempt.current = (nodeAfter node (before ++ .writeStart e.client w :: since)).content

theorem nodeAfter_snoc (node : Option (Dict K V)) (actions : List (YAMLAction C W K V))
    (a : YAMLAction C W K V) :
    nodeAfter node (actions ++ [a]) = (yamlStep (nodeAfter node actions) a).1 := by
  simp [nodeAfter, yamlRun]

theorem localCopy_snoc (node : Option (Dict K V)) (c : C) (actions : List (YAMLAction C W K V))
    (a : YAMLAction C W K V) : localCopy node c (actions ++ [a]) =
      localStep c (nodeAfter node actions) (localCopy node c actions) a := by
  have hnode : ∀ (xs : List (YAMLAction C W K V)) (m : YAMLNode C W K V)
      (l : Option (LocalCopy K V)),
      (xs.foldl (fun ml a => ((yamlStep ml.1 a).1, localStep c ml.1 ml.2 a)) (m, l)).1 =
        yamlRun m xs := by
    intro xs
    induction xs with
    | nil => exact fun m l => rfl
    | cons x xs ih => exact fun m l => ih _ _
  simp only [localCopy, List.foldl_append, List.foldl_cons, List.foldl_nil, hnode]

section clients

omit [DecidableEq C] [DecidableEq W]

/-- The dictionary that the object is bound to changes only where it is rebound, and no other
dictionary is edited. -/
structure Bound (s s' : YAMLState K V) (rebinds : Prop) : Prop where
  rebound : rebinds → s'.cache = s.cache + 1
  stays : ¬ rebinds → s'.cache = s.cache
  kept : ∀ n ≤ s.cache, n ≠ s.cache ∨ rebinds → s'.caches n = s.caches n

omit [DecidableEq K] [DecidableEq V] in
theorem bound_same (s s' : YAMLState K V) (p : Prop) (hp : ¬ p) (hcache : s'.cache = s.cache)
    (hcaches : s'.caches = s.caches) : Bound s s' p :=
  ⟨fun h => absurd h hp, fun _ => hcache, fun n _ _ => congrFun hcaches n⟩

omit [DecidableEq K] [DecidableEq V] in
theorem bound_edit (s : YAMLState K V) (f : Dict K V → Dict K V) (p : Prop) (hp : ¬ p) :
    Bound s (s.edit f) p := by
  refine ⟨fun h => absurd h hp, fun _ => rfl, ?_⟩
  intro n _ hn
  exact Function.update_of_ne (hn.resolve_right hp) _ _

omit [DecidableEq K] [DecidableEq V] in
theorem bound_rebind (s s' : YAMLState K V) (cache : Dict K V) (p : Prop) (hp : p)
    (hcache : s'.cache = s.cache) (hcaches : s'.caches = s.caches) :
    Bound s (s'.rebind cache) p := by
  refine ⟨fun _ => by simp [YAMLState.rebind, hcache], fun h => absurd hp h, ?_⟩
  intro n hn _
  have hne : n ≠ s'.cache + 1 := by omega
  simp [YAMLState.rebind, hcaches, Function.update_of_ne hne]

omit [DecidableEq K] [DecidableEq V] in
theorem setClient_clients [DecidableEq C] (m : YAMLNode C W K V) (c c' : C)
    (s : YAMLState K V) :
    (m.setClient c' s).clients c = if c' = c then s else m.clients c := by
  simp only [YAMLNode.setClient, Function.update_apply, eq_comm]

/-- The copy that an object shows. -/
def YAMLState.localCopy (s : YAMLState K V) : Option (LocalCopy K V) :=
  s.pristineCache.map fun pristine => ⟨(pristine.lookup ·), (s.mapping.lookup ·)⟩

end clients

section steps

variable (m : YAMLNode C W K V) (c : C) (a : YAMLAction C W K V)

/-- The client whose object is read or edited. -/
def YAMLAction.edited : YAMLAction C W K V → Option C
  | .readStart c | .readFinish c _ | .setItem c _ _ | .delItem c _ => some c
  | _ => none

/-- Reading and editing are between a client and its object. -/
theorem yamlStep_edited (h : a.edited = some c) : ∃ s, (yamlStep m a).1 = m.setClient c s := by
  have hsame : m = m.setClient c (m.clients c) := by simp [YAMLNode.setClient]
  cases a with
  | readStart c' =>
    obtain rfl := Option.some.inj h
    exact ⟨_, rfl⟩
  | readFinish c' required =>
    obtain rfl := Option.some.inj h
    simp only [yamlStep, readFinish]
    split
    · exact ⟨_, hsame⟩
    · split
      · exact ⟨_, rfl⟩
      · split <;> exact ⟨_, rfl⟩
  | setItem c' key value =>
    obtain rfl := Option.some.inj h
    simp only [yamlStep, setItem]
    split
    · exact ⟨_, hsame⟩
    · exact ⟨_, rfl⟩
  | delItem c' key =>
    obtain rfl := Option.some.inj h
    simp only [yamlStep, delItem]
    split
    · exact ⟨_, hsame⟩
    · split
      · exact ⟨_, rfl⟩
      · exact ⟨_, hsame⟩
  | writeStart c' w => cases h
  | attempt w => cases h
  | commit w => cases h
  | fail w => cases h

/-- No other client comes at the object of `c`. -/
theorem yamlStep_others (h : a.edited ≠ some c) (hw : ∀ w, a ≠ .writeStart c w) :
    (yamlStep m a).1.clients c = m.clients c := by
  have hedited (c' : C) (he : a.edited = some c') :
      (yamlStep m a).1.clients c = m.clients c := by
    obtain ⟨s, hs⟩ := yamlStep_edited m c' a he
    rw [hs, setClient_clients, if_neg]
    rintro rfl
    exact h he
  cases a with
  | readStart c' => exact hedited c' rfl
  | readFinish c' required => exact hedited c' rfl
  | setItem c' key value => exact hedited c' rfl
  | delItem c' key => exact hedited c' rfl
  | writeStart c' w =>
    have hc : c' ≠ c := fun hc => hw w (hc ▸ rfl)
    simp only [yamlStep, writeStart]
    split
    · rfl
    · rfl
    · simp only [YAMLNode.setWrite, setClient_clients, if_neg hc]
  | attempt w =>
    simp only [yamlStep, attemptWrite]
    split <;> rfl
  | commit w =>
    simp only [yamlStep, commitWrite]
    split
    · rfl
    · split
      · rfl
      · split <;> rfl
  | fail w =>
    simp only [yamlStep, failWrite]
    split <;> rfl

/-- A reply with a content gives the object a new dictionary, any other leaves it its own. -/
theorem readFinish_client (required : Bool) :
    ((m.clients c).reads ≠ 0 ∧ m.content.entries ≠ [] ∧
      ∃ s : YAMLState K V, s.cache = (m.clients c).cache ∧ s.caches = (m.clients c).caches ∧
        s.pristineCache = some m.content ∧
        (yamlStep m (.readFinish c required)).1.clients c = s.rebind m.content) ∨
    (¬ ((m.clients c).reads ≠ 0 ∧ m.content.entries ≠ []) ∧
      ∃ s : YAMLState K V, s.cache = (m.clients c).cache ∧ s.caches = (m.clients c).caches ∧
        s.pristineCache = (m.clients c).pristineCache ∧
        (yamlStep m (.readFinish c required)).1.clients c = s) := by
  simp only [yamlStep, readFinish]
  by_cases hreads : (m.clients c).reads = 0
  · rw [if_pos hreads]
    exact Or.inr ⟨fun h => h.1 hreads, _, rfl, rfl, rfl, rfl⟩
  · rw [if_neg hreads]
    cases hnode : m.node with
    | none =>
      rw [setClient_clients, if_pos rfl]
      refine Or.inr ⟨fun h => h.2 (by simp [YAMLNode.content, hnode]), _, ?_, ?_, ?_, rfl⟩ <;> rfl
    | some data =>
      obtain rfl : m.content = data := by simp [YAMLNode.content, hnode]
      by_cases hentries : m.content.entries = []
      · dsimp only
        rw [if_pos hentries, setClient_clients, if_pos rfl]
        refine Or.inr ⟨fun h => h.2 hentries, _, ?_, ?_, ?_, rfl⟩ <;> rfl
      · dsimp only
        rw [if_neg hentries, setClient_clients, if_pos rfl]
        refine Or.inl ⟨hreads, hentries, { m.clients c with
          pristineCache := some m.content, reads := (m.clients c).reads - 1 }, ?_, ?_, ?_, rfl⟩ <;>
          rfl

theorem yamlStep_bound : Bound (m.clients c) ((yamlStep m a).1.clients c) (Rebinds m c a) := by
  have hsame (p : Prop) (hp : ¬ p) : Bound (m.clients c) (m.clients c) p :=
    bound_same _ _ p hp rfl rfl
  by_cases hedited : a.edited = some c
  · cases a with
    | readStart c' =>
      obtain rfl := Option.some.inj hedited
      simp only [yamlStep, readStart, setClient_clients, if_true, Rebinds]
      exact bound_rebind _ _ _ _ trivial rfl rfl
    | readFinish c' required =>
      obtain rfl := Option.some.inj hedited
      simp only [Rebinds, true_and]
      rcases readFinish_client m c' required with
        ⟨hreads, hentries, s, hcache, hcaches, -, hs⟩ | ⟨hnot, s, hcache, hcaches, -, hs⟩
      · rw [hs]
        exact bound_rebind _ _ _ _ ⟨hreads, hentries⟩ hcache hcaches
      · rw [hs]
        exact bound_same _ _ _ hnot hcache hcaches
    | setItem c' key value =>
      obtain rfl := Option.some.inj hedited
      simp only [yamlStep, setItem, Rebinds]
      split
      · exact hsame _ id
      · rw [setClient_clients, if_pos rfl]
        exact bound_edit _ _ _ id
    | delItem c' key =>
      obtain rfl := Option.some.inj hedited
      simp only [yamlStep, delItem, Rebinds]
      split
      · exact hsame _ id
      · split
        · rw [setClient_clients, if_pos rfl]
          exact bound_edit _ _ _ id
        · exact hsame _ id
    | writeStart c' w => cases hedited
    | attempt w => cases hedited
    | commit w => cases hedited
    | fail w => cases hedited
  · have hnot : ¬ Rebinds m c a := by
      intro hrebinds
      cases a with
      | readStart c' => exact hedited (congrArg some hrebinds)
      | readFinish c' required => exact hedited (congrArg some hrebinds.1)
      | _ => exact hrebinds
    by_cases hw : ∃ w, a = .writeStart c w
    · obtain ⟨w, rfl⟩ := hw
      simp only [yamlStep, writeStart]
      split
      · exact hsame _ hnot
      · exact hsame _ hnot
      · simp only [YAMLNode.setWrite, setClient_clients, if_true]
        exact bound_same _ _ _ hnot rfl rfl
    · rw [yamlStep_others m c a hedited fun w he => hw ⟨w, he⟩]
      exact hsame _ hnot

omit [DecidableEq V] [DecidableEq W] in
theorem localStep_others (l : Option (LocalCopy K V)) (h : a.edited ≠ some c)
    (hw : ∀ w, a ≠ .writeStart c w) : localStep c m l a = l := by
  cases a with
  | readStart c' => exact if_neg fun hc => h (congrArg some hc)
  | readFinish c' required =>
    exact if_neg fun hc : c' = c ∧ _ => h (congrArg some hc.1)
  | setItem c' key value => exact if_neg fun hc => h (congrArg some hc)
  | delItem c' key => exact if_neg fun hc => h (congrArg some hc)
  | writeStart c' w => exact if_neg fun hc : c' = c ∧ _ => hw w (hc.1 ▸ rfl)
  | attempt w => rfl
  | commit w => rfl
  | fail w => rfl

omit [DecidableEq V] in
/-- Editing an object edits the copy that it shows. -/
theorem edit_localCopy (s : YAMLState K V) (f : Dict K V → Dict K V) :
    (s.edit f).localCopy = s.localCopy.map fun l => { l with cache := ((f s.mapping).lookup ·) } := by
  cases hp : s.pristineCache with
  | none => simp [YAMLState.localCopy, YAMLState.edit, hp]
  | some pristine =>
    simp [YAMLState.localCopy, YAMLState.edit, YAMLState.mapping, hp]

/-- The account of the client's calls is what its object shows. -/
theorem localStep_localCopy : localStep c m (m.clients c).localCopy a =
    ((yamlStep m a).1.clients c).localCopy := by
  by_cases hedited : a.edited = some c
  · cases a with
    | readStart c' =>
      obtain rfl := Option.some.inj hedited
      simp [localStep, yamlStep, readStart, setClient_clients, YAMLState.localCopy,
        YAMLState.mapping, YAMLState.rebind]
    | readFinish c' required =>
      obtain rfl := Option.some.inj hedited
      simp only [localStep, true_and]
      rcases readFinish_client m c' required with
        ⟨hreads, hentries, s, -, -, hpristine, hs⟩ | ⟨hnot, s, hcache, hcaches, hpristine, hs⟩
      · rw [if_pos ⟨hreads, hentries⟩, hs]
        simp [YAMLState.localCopy, YAMLState.mapping, YAMLState.rebind, hpristine]
      · rw [if_neg hnot, hs]
        simp [YAMLState.localCopy, YAMLState.mapping, hcache, hcaches, hpristine]
    | setItem c' key value =>
      obtain rfl := Option.some.inj hedited
      simp only [yamlStep, setItem, localStep, if_true]
      cases hp : (m.clients c').pristineCache with
      | none => simp [YAMLState.localCopy, hp]
      | some pristine =>
        rw [setClient_clients, if_pos rfl, edit_localCopy]
        simp only [YAMLState.localCopy, hp, Option.map_some, Option.some.injEq,
          LocalCopy.mk.injEq, true_and]
        funext k
        simp only [Function.update_apply, Dict.lookup_insert]
    | delItem c' key =>
      obtain rfl := Option.some.inj hedited
      simp only [yamlStep, delItem, localStep, if_true]
      cases hp : (m.clients c').pristineCache with
      | none => simp [YAMLState.localCopy, hp]
      | some pristine =>
        dsimp only
        by_cases hin : key ∈ (m.clients c').mapping
        · rw [if_pos hin, setClient_clients, if_pos rfl, edit_localCopy]
          simp only [YAMLState.localCopy, hp, Option.map_some, Option.some.injEq,
            LocalCopy.mk.injEq, true_and]
          funext k
          simp only [Function.update_apply, Dict.lookup_erase]
        · have hnone := AList.lookup_eq_none.mpr hin
          rw [if_neg hin]
          simp only [YAMLState.localCopy, hp, Option.map_some, Option.some.injEq,
            LocalCopy.mk.injEq, true_and]
          funext k
          simp only [Function.update_apply]
          split
          · rw [‹k = key›, hnone]
          · rfl
    | writeStart c' w => cases hedited
    | attempt w => cases hedited
    | commit w => cases hedited
    | fail w => cases hedited
  · by_cases hw : ∃ w, a = .writeStart c w
    · obtain ⟨w, rfl⟩ := hw
      simp only [yamlStep, writeStart, localStep]
      cases hfree : m.writes w with
      | some p => simp
      | none =>
        cases hp : (m.clients c).pristineCache with
        | none => simp [YAMLState.localCopy, hp]
        | some pristine =>
          simp [YAMLNode.setWrite, setClient_clients, YAMLState.localCopy, YAMLState.mapping, hp]
    · have hnot (w : W) : a ≠ .writeStart c w := fun he => hw ⟨w, he⟩
      rw [yamlStep_others m c a hedited hnot, localStep_others m c a _ hedited hnot]

/-- A write after a step: it has just been started, or goes on with the same dictionaries. -/
theorem yamlStep_writes (w : W) (p' : PendingWrite C K V)
    (h : (yamlStep m a).1.writes w = some p') :
    (m.writes w = none ∧ a = .writeStart p'.client w ∧
      (m.clients p'.client).pristineCache = some p'.pristine ∧
      p'.cache = (m.clients p'.client).cache ∧ p'.attempt = none) ∨
    ∃ p, m.writes w = some p ∧ p'.client = p.client ∧ p'.pristine = p.pristine ∧
      p'.cache = p.cache ∧ ∀ x, p'.attempt = some x →
        (a ≠ .attempt w ∧ p.attempt = some x) ∨
        (a = .attempt w ∧ x.cache = (m.clients p.client).caches p.cache ∧
          x.current = m.content) := by
  have hsame (hw : m.writes w = some p') (ha : a ≠ .attempt w) :
      ∃ p, m.writes w = some p ∧ p'.client = p.client ∧ p'.pristine = p.pristine ∧
        p'.cache = p.cache ∧ ∀ x, p'.attempt = some x →
          (a ≠ .attempt w ∧ p.attempt = some x) ∨
          (a = .attempt w ∧ x.cache = (m.clients p.client).caches p.cache ∧
            x.current = m.content) :=
    ⟨p', hw, rfl, rfl, rfl, fun x hx => Or.inl ⟨ha, hx⟩⟩
  have hedited (c' : C) (he : a.edited = some c') : m.writes w = some p' := by
    obtain ⟨s, hs⟩ := yamlStep_edited m c' a he
    rw [hs] at h
    exact h
  cases a with
  | readStart c' => exact Or.inr (hsame (hedited c' rfl) (by simp))
  | readFinish c' required => exact Or.inr (hsame (hedited c' rfl) (by simp))
  | setItem c' key value => exact Or.inr (hsame (hedited c' rfl) (by simp))
  | delItem c' key => exact Or.inr (hsame (hedited c' rfl) (by simp))
  | writeStart c' w' =>
    simp only [yamlStep, writeStart] at h
    split at h
    · exact Or.inr (hsame h (by simp))
    · exact Or.inr (hsame h (by simp))
    · rename_i pristine hw hp
      simp only [YAMLNode.setWrite, Function.update_apply] at h
      split at h
      · subst w'
        cases h
        exact Or.inl ⟨hw, rfl, hp, rfl, rfl⟩
      · exact Or.inr (hsame h (by simp))
  | attempt w' =>
    simp only [yamlStep, attemptWrite] at h
    split at h
    · rename_i hw
      refine Or.inr (hsame h ?_)
      rintro ⟨⟩
      simp [hw] at h
    · rename_i p hw
      simp only [YAMLNode.setWrite, Function.update_apply] at h
      split at h
      · subst w'
        cases h
        refine Or.inr ⟨p, hw, rfl, rfl, rfl, ?_⟩
        intro x hx
        cases hx
        exact Or.inr ⟨rfl, rfl, rfl⟩
      · rename_i hne
        refine Or.inr (hsame h ?_)
        rintro ⟨⟩
        exact hne rfl
  | commit w' =>
    simp only [yamlStep, commitWrite] at h
    split at h
    · exact Or.inr (hsame h (by simp))
    · rename_i p hw
      split at h
      · exact Or.inr (hsame h (by simp))
      · split at h
        · simp only [YAMLNode.setWrite, Function.update_apply] at h
          split at h
          · cases h
          · exact Or.inr (hsame h (by simp))
        · simp only [YAMLNode.setWrite, Function.update_apply] at h
          split at h
          · subst w'
            cases h
            exact Or.inr ⟨p, hw, rfl, rfl, rfl, fun x hx => by cases hx⟩
          · exact Or.inr (hsame h (by simp))
  | fail w' =>
    simp only [yamlStep, failWrite] at h
    split at h
    · exact Or.inr (hsame h (by simp))
    · simp only [YAMLNode.setWrite, Function.update_apply] at h
      split at h
      · cases h
      · exact Or.inr (hsame h (by simp))

/-- The commits after a step, with the write that a new one ends. -/
theorem yamlStep_commits (e : Commit C K V) (h : e ∈ (yamlStep m a).1.commits) :
    e ∈ m.commits ∨ ∃ w p, a = .commit w ∧ m.writes w = some p ∧ e.client = p.client ∧
      e.pristine = p.pristine ∧ p.attempt = some e.attempt := by
  have hedited (c' : C) (he : a.edited = some c') : e ∈ m.commits := by
    obtain ⟨s, hs⟩ := yamlStep_edited m c' a he
    rw [hs] at h
    exact h
  cases a with
  | commit w =>
    simp only [yamlStep, commitWrite] at h
    split at h
    · exact Or.inl h
    · rename_i p hw
      split at h
      · exact Or.inl h
      · rename_i x hx
        split at h
        · rcases List.mem_append.mp h with h | h
          · exact Or.inl h
          · obtain rfl := List.mem_singleton.mp h
            exact Or.inr ⟨w, p, rfl, hw, rfl, rfl, hx⟩
        · exact Or.inl h
  | readStart c' => exact Or.inl (hedited c' rfl)
  | readFinish c' required => exact Or.inl (hedited c' rfl)
  | setItem c' key value => exact Or.inl (hedited c' rfl)
  | delItem c' key => exact Or.inl (hedited c' rfl)
  | writeStart c' w =>
    simp only [yamlStep, writeStart] at h
    split at h <;> exact Or.inl h
  | attempt w =>
    simp only [yamlStep, attemptWrite] at h
    split at h <;> exact Or.inl h
  | fail w =>
    simp only [yamlStep, failWrite] at h
    split at h <;> exact Or.inl h

end steps

section runs

variable (node : Option (Dict K V))

/-- Where a write under way comes from. -/
structure Comes (actions : List (YAMLAction C W K V)) (w : W) (p : PendingWrite C K V)
    (before since : List (YAMLAction C W K V)) : Prop where
  split : actions = before ++ .writeStart p.client w :: since
  underWay : UnderWay node p.client w before since
  pristine : ∃ l, localCopy node p.client before = some l ∧ (p.pristine.lookup ·) = l.pristine
  cache : ∃ kept rest, since = kept ++ rest ∧
    HeldUntil node p.client w before kept rest
      ((((nodeAfter node actions).clients p.client).caches p.cache).lookup ·) ∧
    (rest = [] ∧ p.cache = ((nodeAfter node actions).clients p.client).cache ∨
      rest ≠ [] ∧ p.cache < ((nodeAfter node actions).clients p.client).cache)
  attempted : ∀ x, p.attempt = some x → ∃ done waited,
    since = done ++ .attempt w :: waited ∧ .attempt w ∉ waited ∧
      Held node p.client w before done (p.pristine.lookup ·) (x.cache.lookup ·) ∧
      x.current = (nodeAfter node (before ++ .writeStart p.client w :: done)).content

theorem localCopy_client (c : C) (actions : List (YAMLAction C W K V)) :
    localCopy node c actions = ((nodeAfter node actions).clients c).localCopy := by
  induction actions using List.reverseRecOn with
  | nil => rfl
  | append_singleton actions a ih =>
    rw [localCopy_snoc, nodeAfter_snoc, ih]
    exact localStep_localCopy _ c a

theorem underWay_snoc (c : C) (w : W) (before since : List (YAMLAction C W K V))
    (a : YAMLAction C W K V) (h : UnderWay node c w before since)
    (hw : ((nodeAfter node (before ++ .writeStart c w :: (since ++ [a]))).writes w).isSome) :
    UnderWay node c w before (since ++ [a]) := by
  refine ⟨h.free, ?_⟩
  intro done hdone
  rcases List.prefix_concat_iff.mp hdone with rfl | hdone
  · exact hw
  · exact h.writing done hdone

omit [DecidableEq V] [DecidableEq W] in
theorem localStep_some (c : C) (m : YAMLNode C W K V) (l : LocalCopy K V)
    (a : YAMLAction C W K V) : ∃ l', localStep c m (some l) a = some l' := by
  cases a with
  | readStart c' => by_cases hc : c' = c <;> simp [localStep, hc]
  | readFinish c' required =>
    simp only [localStep]
    split
    · exact ⟨_, rfl⟩
    · exact ⟨_, rfl⟩
  | setItem c' key value => by_cases hc : c' = c <;> simp [localStep, hc]
  | delItem c' key => by_cases hc : c' = c <;> simp [localStep, hc]
  | writeStart c' w =>
    simp only [localStep]
    split
    · exact ⟨_, rfl⟩
    · exact ⟨_, rfl⟩
  | attempt w => exact ⟨l, rfl⟩
  | commit w => exact ⟨l, rfl⟩
  | fail w => exact ⟨l, rfl⟩

omit [DecidableEq V] [DecidableEq C] [DecidableEq W] in
theorem localCopy_some (s : YAMLState K V) (l : LocalCopy K V) (h : s.localCopy = some l) :
    (s.mapping.lookup ·) = l.cache := by
  obtain ⟨pristine, -, rfl⟩ := Option.map_eq_some_iff.mp h
  rfl

section step

variable (actions : List (YAMLAction C W K V)) (w : W) (p : PendingWrite C K V)
  (before since : List (YAMLAction C W K V)) (h : Comes node actions w p before since)
  (a : YAMLAction C W K V)

include h in
/-- The dictionary of a write under way, after one more step. -/
theorem comes_cache : ∃ kept rest, since ++ [a] = kept ++ rest ∧
    HeldUntil node p.client w before kept rest
      ((((nodeAfter node (actions ++ [a])).clients p.client).caches p.cache).lookup ·) ∧
    (rest = [] ∧ p.cache = ((nodeAfter node (actions ++ [a])).clients p.client).cache ∨
      rest ≠ [] ∧ p.cache < ((nodeAfter node (actions ++ [a])).clients p.client).cache) := by
  have hb := yamlStep_bound (nodeAfter node actions) p.client a
  obtain ⟨kept, rest, hsince, hheld, hcases⟩ := h.cache
  have hsplit := h.split
  rw [nodeAfter_snoc]
  rcases hcases with ⟨hnil, hcache⟩ | ⟨hne, hlt⟩
  · obtain rfl : since = kept := by rw [hsince, hnil, List.append_nil]
    by_cases hr : Rebinds (nodeAfter node actions) p.client a
    · have hsame := hb.kept p.cache (Nat.le_of_eq hcache) (Or.inr hr)
      refine ⟨since, [a], rfl, ⟨hheld.bound, ?_, ?_⟩, Or.inr ⟨by simp, ?_⟩⟩
      · intro b hhead
        obtain rfl : a = b := by simpa using hhead
        rwa [← hsplit]
      · rw [hsame]
        exact hheld.cache
      · rw [hb.rebound hr, hcache]
        exact Nat.lt_succ_self _
    · have hstays := hb.stays hr
      refine ⟨since ++ [a], [], (List.append_nil _).symm, ⟨?_, by simp, ?_⟩,
        Or.inl ⟨rfl, hcache.trans hstays.symm⟩⟩
      · intro done b hprefix
        rcases List.prefix_concat_iff.mp hprefix with heq | hprefix
        · obtain ⟨rfl, hlast⟩ := List.append_inj' heq rfl
          obtain rfl : b = a := by simpa using hlast
          rwa [← hsplit]
        · exact hheld.bound done b hprefix
      · obtain ⟨l, hl, -⟩ := hheld.cache
        rw [← hsplit] at hl
        obtain ⟨l', hl'⟩ := localStep_some p.client (nodeAfter node actions) l a
        have hnew : localCopy node p.client (actions ++ [a]) = some l' := by
          rw [localCopy_snoc, hl, hl']
        refine ⟨l', ?_, ?_⟩
        · rw [← hnew, hsplit, List.append_assoc, List.cons_append]
        · rw [localCopy_client, nodeAfter_snoc] at hnew
          rw [← localCopy_some _ l' hnew, YAMLState.mapping, hstays, hcache]
  · have hsame := hb.kept p.cache (Nat.le_of_lt hlt) (Or.inl (Nat.ne_of_lt hlt))
    refine ⟨kept, rest ++ [a], by rw [hsince, List.append_assoc], ⟨hheld.bound, ?_, ?_⟩,
      Or.inr ⟨by simp, ?_⟩⟩
    · intro b hhead
      rw [List.head?_append_of_ne_nil _ hne] at hhead
      exact hheld.rebound b hhead
    · rw [hsame]
      exact hheld.cache
    · by_cases hr : Rebinds (nodeAfter node actions) p.client a
      · rw [hb.rebound hr]
        exact Nat.lt_succ_of_lt hlt
      · rwa [hb.stays hr]

include h in
/-- A write that goes on. -/
theorem comes_step (p' : PendingWrite C K V) (hclient : p'.client = p.client)
    (hpristine : p'.pristine = p.pristine) (hcache : p'.cache = p.cache)
    (hw : (nodeAfter node (actions ++ [a])).writes w = some p')
    (hattempt : ∀ x, p'.attempt = some x →
      (a ≠ .attempt w ∧ p.attempt = some x) ∨
      (a = .attempt w ∧
        x.cache = ((nodeAfter node actions).clients p.client).caches p.cache ∧
        x.current = (nodeAfter node actions).content)) :
    Comes node (actions ++ [a]) w p' before (since ++ [a]) := by
  obtain ⟨client, pristine, cache, attempt⟩ := p'
  cases hclient
  cases hpristine
  cases hcache
  have hsplit : actions ++ [a] = before ++ .writeStart p.client w :: (since ++ [a]) := by
    rw [h.split, List.append_assoc, List.cons_append]
  refine ⟨hsplit, ?_, h.pristine, comes_cache node actions w p before since h a, ?_⟩
  · apply underWay_snoc node p.client w before since a h.underWay
    rw [← hsplit, hw]
    rfl
  · intro x hx
    rcases hattempt x hx with ⟨hne, hold⟩ | ⟨rfl, hxcache, hxcurrent⟩
    · obtain ⟨done, waited, hsince, hnot, hheld, hcurrent⟩ := h.attempted x hold
      refine ⟨done, waited ++ [a], by rw [hsince, List.append_assoc, List.cons_append], ?_,
        hheld, hcurrent⟩
      rw [List.mem_append, List.mem_singleton]
      rintro (hin | heq)
      · exact hnot hin
      · exact hne heq.symm
    · obtain ⟨kept, rest, hsince, hheld, -⟩ := h.cache
      refine ⟨since, [], rfl, by simp, ⟨h.pristine, kept, rest, hsince, ?_⟩, ?_⟩
      · rw [hxcache]
        exact hheld
      · rw [hxcurrent, ← h.split]

end step

theorem pending_comes (actions : List (YAMLAction C W K V)) (w : W) (p : PendingWrite C K V)
    (hw : (nodeAfter node actions).writes w = some p) :
    ∃ before since, Comes node actions w p before since := by
  induction actions using List.reverseRecOn generalizing p with
  | nil => cases hw
  | append_singleton actions a ih =>
    have hstep := hw
    rw [nodeAfter_snoc] at hstep
    rcases yamlStep_writes _ a w p hstep with ⟨hfree, rfl, hpristine, hcache, hnone⟩ |
        ⟨q, hq, hclient, hpristine, hcache, hattempt⟩
    · have hb := yamlStep_bound (nodeAfter node actions) p.client (.writeStart p.client w)
      have hstays := hb.stays id
      have hlocal : localCopy node p.client actions = some ⟨(p.pristine.lookup ·),
          (((nodeAfter node actions).clients p.client).mapping.lookup ·)⟩ := by
        rw [localCopy_client, YAMLState.localCopy, hpristine]
        rfl
      obtain ⟨l, hl⟩ := localStep_some p.client (nodeAfter node actions) _ (.writeStart p.client w)
      rw [← hlocal, ← localCopy_snoc] at hl
      refine ⟨actions, [], rfl, ⟨by simp [hfree], ?_⟩, ⟨_, hlocal, rfl⟩,
        ⟨[], [], rfl, ⟨?_, by simp, l, hl, ?_⟩, Or.inl ⟨rfl, ?_⟩⟩, ?_⟩
      · intro done hdone
        obtain rfl := List.prefix_nil.mp hdone
        simp [hw]
      · intro done b hprefix
        simp at hprefix
      · rw [localCopy_client] at hl
        rw [← localCopy_some _ l hl, YAMLState.mapping, nodeAfter_snoc, hstays, hcache]
      · rw [nodeAfter_snoc, hstays, hcache]
      · intro x hx
        rw [hnone] at hx
        cases hx
    · obtain ⟨before, since, hcomes⟩ := ih q hq
      exact ⟨before, since ++ [a], comes_step node actions w q before since hcomes a p hclient
        hpristine hcache hw hattempt⟩

/-- Every commit goes back to a call of `write()` by its client. -/
theorem commits_originate (actions : List (YAMLAction C W K V)) (e : Commit C K V)
    (he : e ∈ (nodeAfter node actions).commits) : Originates node actions e := by
  induction actions using List.reverseRecOn with
  | nil => cases he
  | append_singleton actions a ih =>
    rw [nodeAfter_snoc] at he
    rcases yamlStep_commits _ a e he with hold | ⟨w, p, rfl, hw, hclient, hpristine, hattempt⟩
    · obtain ⟨w, before, since, waited, rest, hsplit, horigin⟩ := ih hold
      refine ⟨w, before, since, waited, rest ++ [a], ?_, horigin⟩
      rw [hsplit]
      simp
    · obtain ⟨before, since, hcomes⟩ := pending_comes node actions w p hw
      obtain ⟨done, waited, hsince, hnot, hheld, hcurrent⟩ := hcomes.attempted _ hattempt
      obtain ⟨client, pristine, attempt⟩ := e
      cases hclient
      cases hpristine
      refine ⟨w, before, done, waited, [], ?_, hnot, hsince ▸ hcomes.underWay, hheld, hcurrent⟩
      rw [hcomes.split, hsince]
      simp

end runs

end Juju.State
