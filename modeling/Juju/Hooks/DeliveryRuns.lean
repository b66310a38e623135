import Juju.Hooks.SettingsDelivery

namespace Juju.Hooks
open Juju.Base
open Juju.State (RelationUnitWatcher WatcherEvent WatcherRequest)

variable {U : Type} [LinearOrder U]

namespace WatchedRelation

variable {interested : U → Bool} (r r' : WatchedRelation U)

omit [LinearOrder U] in
/-- A watcher with the same units, calls and names to be read. -/
theorem followed_watcher (w : RelationUnitWatcher U) (answered watched : List (U × Option Nat))
    (named notifying : List (U × Nat)) (h : r.Followed interested)
    (hunits : w.units = r.watcher.units) (hcalls : w.calls = r.watcher.calls)
    (hnames : ∀ task oldUnits newUnits,
      WatcherRequest.memberNames task oldUnits newUnits ∈ w.requests ↔
        WatcherRequest.memberNames task oldUnits newUnits ∈ r.watcher.requests) :
    Followed interested { r with
      watcher := w
      answered := answered
      named := named
      notifying := notifying
      watched := watched } := by
  have hpending : NamesPending { r with
      watcher := w
      answered := answered
      named := named
      notifying := notifying
      watched := watched } ↔ r.NamesPending := by
    simp only [NamesPending, hnames]
  refine ⟨h.childrenHad, fun u hu => h.unitsHad u (hunits ▸ hu), ?_,
    fun hnone => hunits.trans (h.absent hnone), ?_, ?_, ?_⟩
  · simp only [hunits]
    exact h.read
  · simp only [hunits, hnames]
    exact h.naming
  · intro hnot hnil
    exact hunits.trans (h.uncalled (hpending.not.mp hnot) (hcalls ▸ hnil))
  · intro hnot hne
    simp only [hunits]
    exact h.called (hpending.not.mp hnot) (hcalls ▸ hne)

/-- Settings are read. -/
theorem answered_following (h : r.Following interested) (u : U) (task : Option Nat)
    (rest : List (WatcherRequest U)) (w : RelationUnitWatcher U)
    (hreq : r.watcher.requests = .settings u task :: rest)
    (hw : w = { r.watcher with
      requests := rest
      answered := r.watcher.answered ++ [(u, task, (r.versions u).isSome)] })
    (htoken : w.stopped = some false ∧ w.containerTokens = 1) :
    Following interested
      { r with answered := r.answered ++ [(u, r.versions u)], watcher := w } := by
  subst hw
  obtain ⟨hshowing, hpassed, hfollowed, hcovered, -⟩ := h
  have hrest (q : WatcherRequest U) (hq : q ∈ rest) : q ∈ r.watcher.requests := by
    rw [hreq]
    exact List.mem_cons_of_mem _ hq
  have hnaming (t : Nat) (oldUnits newUnits : List U)
      (hin : .memberNames t oldUnits newUnits ∈ r.watcher.requests) :
      .memberNames t oldUnits newUnits ∈ rest := by
    rw [hreq] at hin
    exact (List.mem_cons.mp hin).resolve_left (by simp)
  have hpending (hnot : ¬ NamesPending { r with
      answered := r.answered ++ [(u, r.versions u)]
      watcher := { r.watcher with
        requests := rest
        answered := r.watcher.answered ++ [(u, task, (r.versions u).isSome)] } }) :
      ¬ r.NamesPending := by
    rintro ⟨t, oldUnits, newUnits, hin⟩
    exact hnot ⟨t, oldUnits, newUnits, hnaming t oldUnits newUnits hin⟩
  obtain ⟨n, hn, -⟩ := hpassed.requestedHad u task (hreq ▸ List.mem_cons_self)
  refine ⟨⟨hshowing.inv, hshowing.known, hshowing.recent, hshowing.due⟩,
    ⟨?_, ?_, hpassed.notifying, hpassed.watched, fun v t hv => hpassed.requestedHad v t (hrest _ hv),
      ?_, hpassed.namedHad, hpassed.notifyingHad, hpassed.watchedHad⟩,
    ⟨hfollowed.childrenHad, hfollowed.unitsHad, hfollowed.read, hfollowed.absent,
      fun t oldUnits newUnits hin => hfollowed.naming t oldUnits newUnits (hrest _ hin),
      fun hnot => hfollowed.uncalled (hpending hnot),
      fun hnot => hfollowed.called (hpending hnot)⟩, ?_, Or.inr htoken⟩
  · simp only [List.map_append, hpassed.answered, List.map_cons, List.map_nil]
  · have hnamed := hpassed.named
    rw [hreq] at hnamed
    exact hnamed
  · intro a ha
    rcases List.mem_append.mp ha with ha | ha
    · exact hpassed.answeredHad a ha
    · rw [List.mem_singleton.mp ha]
      exact ⟨n, hn, n, hn, le_refl _⟩
  · intro v hv
    rcases hcovered v hv with ⟨t, oldUnits, newUnits, hin, hout, hway⟩ | ⟨hin, htracked⟩
    · refine Or.inl ⟨t, oldUnits, newUnits, hnaming t oldUnits newUnits hin, hout, ?_⟩
      rcases hway with hway | ⟨stat, hway⟩
      · rw [hreq] at hway
        rcases List.mem_cons.mp hway with hsame | hway
        · obtain ⟨rfl, rfl⟩ := WatcherRequest.settings.inj hsame
          exact Or.inr ⟨_, List.mem_append_right _ (List.mem_singleton_self _)⟩
        · exact Or.inl hway
      · exact Or.inr ⟨stat, List.mem_append_left _ hway⟩
    · refine Or.inr ⟨hin, ?_⟩
      cases htracked with
      | requested t hway =>
        rw [hreq] at hway
        rcases List.mem_cons.mp hway with hsame | hway
        · obtain ⟨rfl, rfl⟩ := WatcherRequest.settings.inj hsame
          exact .answered _ (List.mem_append_right _ (List.mem_singleton_self _))
        · exact .requested t hway
      | answered x hx => exact .answered x (List.mem_append_left _ hx)
      | named x hx => exact .named x hx
      | told x k hx hk hle => exact .told x k hx hk hle

/-- The settings at one place of those answered. -/
theorem answered_at (h : r.Following interested) (i : Nat) (u : U) (task : Option Nat)
    (stat : Bool) (hi : r.watcher.answered[i]? = some (u, task, stat)) :
    stat = true ∧ ∃ v : Nat, r.answered[i]? = some (u, some v) ∧ r.Had u v := by
  obtain ⟨⟨u', x⟩, hx, hsame⟩ := map_eq_getElem _ _ _ _ h.passed.answered i _ hi
  obtain ⟨rfl, hstat⟩ := Prod.mk.inj hsame
  obtain ⟨v, hv, hhad⟩ := h.passed.answeredHad _ (List.mem_of_getElem? hx)
  have hv : x = some v := hv
  subst hv
  exact ⟨hstat.symm, v, hx, hhad⟩

/-- Every unit but the one whose settings are taken off those answered is as it was. -/
theorem left_covered (h : r.Following interested) (r₁ : WatchedRelation U) (i : Nat) (u : U)
    (task : Option Nat) (stat : Bool)
    (hi : r.watcher.answered[i]? = some (u, task, stat))
    (htask : ¬ ∃ t ∈ task, r.watcher.TaskOpen t)
    (hreq : r.watcher.requests ⊆ r₁.watcher.requests)
    (hanswered : r₁.watcher.answered = r.watcher.answered.eraseIdx i)
    (hleft : r₁.answered = r.answered.eraseIdx i) (hnamed : r.named ⊆ r₁.named)
    (hnotifying : r.notifying ⊆ r₁.notifying) (hwatched : r₁.watched = r.watched)
    (hsession : r₁.session = r.session) :
    ∀ v ∈ r.watcher.units, r₁.Awaited v ∨ v ∈ r₁.session.current ∧ (r₁.Tracked v ∨ v = u) := by
  obtain ⟨-, x, hx, -⟩ := answered_at r h i u task stat hi
  intro v hv
  rcases h.covered v hv with ⟨t, oldUnits, newUnits, hin, hout, hway⟩ | ⟨hin, htracked⟩
  · refine Or.inl ⟨t, oldUnits, newUnits, hreq hin, hout, ?_⟩
    rcases hway with hway | ⟨stat', hway⟩
    · exact Or.inl (hreq hway)
    · rcases RelationUnitWatcher.mem_eraseIdx_or _ i _ _ hi hway with hsame | hway
      · -- the settings wait for the end of the task that reports the unit
        obtain ⟨rfl, rfl, rfl⟩ : v = u ∧ some t = task ∧ stat' = stat := by simpa using hsame
        refine absurd ⟨t, rfl, Or.inr ?_⟩ htask
        rw [List.any_eq_true]
        exact ⟨_, hin, by simp⟩
      · exact Or.inr ⟨stat', hanswered ▸ hway⟩
  · refine Or.inr ⟨hsession ▸ hin, ?_⟩
    cases htracked with
    | requested t hway => exact Or.inl (.requested t (hreq hway))
    | answered y hy =>
      rcases RelationUnitWatcher.mem_eraseIdx_or _ i _ _ hx hy with hsame | hy
      · exact Or.inr (Prod.mk.inj hsame).1
      · exact Or.inl (.answered y (hleft ▸ hy))
    | named y hy => exact Or.inl (.named y (hnamed hy))
    | told y k hy hk hle =>
      refine Or.inl (.told y k ?_ (hsession ▸ hk) hle)
      rcases hy with hy | hy
      · exact Or.inl (hnotifying hy)
      · exact Or.inr (hwatched ▸ hy)

/-- Settings that have been read are passed on, and the scheduler is told of them at once where the
names are there. -/
theorem tracked_following (h : r.Following interested) (i : Nat) (u : U) (task : Option Nat)
    (stat : Bool) (w : RelationUnitWatcher U)
    (hi : r.watcher.answered[i]? = some (u, task, stat))
    (htask : ¬ ∃ t ∈ task, r.watcher.TaskOpen t)
    (hw : w = { r.watcher with
      answered := r.watcher.answered.eraseIdx i }.notifyUnitSettingsVersion u stat)
    (htoken : w.stopped = some false ∧ w.containerTokens = 1)
    (ht : ∀ c ∈ r.called { r.reads (.settingsTracked i) with watcher := w },
      Timely r.session c ∧ r.session.InLoop)
    (hcall : r.callBack { r.reads (.settingsTracked i) with watcher := w } = .ok r') :
    r'.Following interested := by
  obtain ⟨rfl, v, hx, hhad⟩ := answered_at r h i u task stat hi
  have hfollowing := h
  obtain ⟨hshowing, hpassed, hfollowed, -, -⟩ := h
  have hanswered : (r.watcher.answered.eraseIdx i).map (fun a => (a.1, a.2.2)) =
      (r.answered.eraseIdx i).map fun a => (a.1, a.2.isSome) := by
    rw [← List.eraseIdx_map, ← List.eraseIdx_map, hpassed.answered]
  have hleftHad (a : U × Option Nat) (ha : a ∈ r.answered.eraseIdx i) :
      ∃ v : Nat, a.2 = some v ∧ r.Had a.1 v := hpassed.answeredHad a (List.mem_of_mem_eraseIdx ha)
  cases hnames : r.watcher.unitNameMap with
  | true =>
    simp only [RelationUnitWatcher.notifyUnitSettingsVersion, hnames, if_true] at hw
    have hcalls : w.calls = r.watcher.calls := by rw [hw]
    have hreq : w.requests = r.watcher.requests := by rw [hw]
    have hunits : w.units = r.watcher.units := by rw [hw]
    have hpending : w.answered = r.watcher.answered.eraseIdx i := by rw [hw]
    simp only [reads, hx, hnames, if_true] at ht hcall
    set r₁ : WatchedRelation U := { r with
      watcher := w, answered := r.answered.eraseIdx i, notifying := r.notifying ++ [(u, v)] } with hr₁
    obtain ⟨hcalled, hback⟩ := callBack_settings r r₁ u v hcalls rfl
    rw [hback] at hcall
    have hcovered := left_covered r hfollowing r₁ i u task true hi htask (by simp [hr₁, hreq])
      hpending rfl (List.Subset.refl _) (List.subset_append_left _ _) rfl rfl
    have hpassed₁ : r₁.Passed := by
      refine ⟨?_, ?_, ?_, ?_, ?_, hleftHad, hpassed.namedHad, ?_, hpassed.watchedHad⟩
      · simp only [hr₁, hpending, hanswered]
      · simp only [hr₁, hreq, hpassed.named]
      · simp only [hr₁, hw, List.map_append, List.map_cons, List.map_nil, hpassed.notifying]
      · simp only [hr₁, hw, hpassed.watched]
      · simp only [hr₁, hreq]
        exact hpassed.requestedHad
      · intro a ha
        rcases List.mem_append.mp ha with ha | ha
        · exact hpassed.notifyingHad a ha
        · rw [List.mem_singleton.mp ha]
          exact hhad
    have hfollowed₁ : r₁.Followed interested :=
      followed_watcher r w _ _ _ _ hfollowed hunits hcalls (by simp [hreq])
    exact told_following r' r₁ u v
      ⟨hshowing.inv, hshowing.known, hshowing.recent, hshowing.due⟩ hpassed₁ hfollowed₁
      (List.mem_append_right _ (List.mem_singleton_self _)) (hunits ▸ hcovered) htoken
      (ht _ hcalled) hcall
  | false =>
    simp only [RelationUnitWatcher.notifyUnitSettingsVersion, hnames, if_true,
      Bool.false_eq_true, if_false] at hw
    have hcalls : w.calls = r.watcher.calls := by
      rw [hw]
      rfl
    have hreq : w.requests = r.watcher.requests ++ [.unitName u] := by
      rw [hw]
      rfl
    have hunits : w.units = r.watcher.units := by
      rw [hw]
      rfl
    have hpending : w.answered = r.watcher.answered.eraseIdx i := by
      rw [hw]
      rfl
    simp only [reads, hx, hnames, Bool.false_eq_true, if_false] at hcall
    set r₁ : WatchedRelation U := { r with
      watcher := w, answered := r.answered.eraseIdx i, named := r.named ++ [(u, v)] } with hr₁
    rw [callBack_none r r₁ hcalls (le_refl _)] at hcall
    obtain rfl := Except.ok.inj hcall
    have hcovered := left_covered r hfollowing r₁ i u task true hi htask
      (by simp [hr₁, hreq]) hpending rfl (List.subset_append_left _ _) (List.Subset.refl _)
      rfl rfl
    refine ⟨⟨hshowing.inv, hshowing.known, hshowing.recent, hshowing.due⟩,
      ⟨?_, ?_, ?_, ?_, ?_, hleftHad, ?_, hpassed.notifyingHad, hpassed.watchedHad⟩,
      followed_watcher r w _ _ _ _ hfollowed hunits hcalls (by simp [hreq]), ?_, Or.inr htoken⟩
    · simp only [hr₁, hpending, hanswered]
    · simp only [hr₁, hreq, List.filterMap_append, hpassed.named, List.map_append]
      rfl
    · simp only [hr₁, hw, RelationUnitWatcher.request, hpassed.notifying]
    · simp only [hr₁, hw, RelationUnitWatcher.request, hpassed.watched]
    · intro u' task' hin
      simp only [hr₁, hreq, List.mem_append, List.mem_singleton, reduceCtorEq, or_false] at hin
      exact hpassed.requestedHad u' task' hin
    · intro a ha
      rcases List.mem_append.mp ha with ha | ha
      · exact hpassed.namedHad a ha
      · rw [List.mem_singleton.mp ha]
        exact hhad
    · intro u' hu'
      rcases hcovered u' (hunits ▸ hu') with hawaited | ⟨hin, htracked | rfl⟩
      · exact Or.inl hawaited
      · exact Or.inr ⟨hin, htracked⟩
      · exact Or.inr ⟨hin, .named v (List.mem_append_right _ (List.mem_singleton_self _))⟩

/-- The name for a notification is read, and the scheduler is told. -/
theorem named_following (h : r.Following interested) (u : U) (rest : List (WatcherRequest U))
    (w : RelationUnitWatcher U) (hreq : r.watcher.requests = .unitName u :: rest)
    (hw : w = { r.watcher with
      requests := rest, unitNameMap := true, notifying := r.watcher.notifying ++ [u] })
    (htoken : w.stopped = some false ∧ w.containerTokens = 1)
    (ht : ∀ c ∈ r.called { r.reads .namesAnswered with watcher := w },
      Timely r.session c ∧ r.session.InLoop)
    (hcall : r.callBack { r.reads .namesAnswered with watcher := w } = .ok r') :
    r'.Following interested := by
  obtain ⟨hshowing, hpassed, hfollowed, hcovered, -⟩ := h
  have hnamed := hpassed.named
  have hrequests : w.requests = rest := by rw [hw]
  have hcalls : w.calls = r.watcher.calls := by rw [hw]
  have hunits : w.units = r.watcher.units := by rw [hw]
  have hanswered : w.answered = r.watcher.answered := by rw [hw]
  rw [hreq, List.filterMap_cons] at hnamed
  simp only [nameFor] at hnamed
  obtain ⟨⟨u', v⟩, named, hcons⟩ := List.exists_cons_of_ne_nil (l := r.named) (by
    intro hnil
    simp [hnil] at hnamed)
  rw [hcons, List.map_cons, List.cons.injEq] at hnamed
  obtain ⟨rfl, hnamed⟩ := hnamed
  have hhad : r.Had u v := hpassed.namedHad (u, v) (hcons ▸ List.mem_cons_self)
  have hmem (q : WatcherRequest U) (hq : nameFor q = none) :
      q ∈ w.requests ↔ q ∈ r.watcher.requests := by
    rw [hrequests, hreq, List.mem_cons]
    refine ⟨Or.inr, fun hin => hin.resolve_left ?_⟩
    rintro rfl
    simp [nameFor] at hq
  simp only [reads, hreq, hcons] at ht hcall
  set r₁ : WatchedRelation U := { r with
    watcher := w, named := named, notifying := r.notifying ++ [(u, v)] } with hr₁
  obtain ⟨hcalled, hback⟩ := callBack_settings r r₁ u v hcalls rfl
  rw [hback] at hcall
  have hpassed₁ : r₁.Passed := by
    refine ⟨?_, ?_, ?_, ?_, ?_, hpassed.answeredHad, ?_, ?_, hpassed.watchedHad⟩
    · simp only [hr₁, hanswered, hpassed.answered]
    · simp only [hr₁, hrequests, hnamed]
    · simp only [hr₁, hw, List.map_append, List.map_cons, List.map_nil, hpassed.notifying]
    · simp only [hr₁, hw, hpassed.watched]
    · intro u' task hin
      exact hpassed.requestedHad u' task ((hmem _ rfl).mp hin)
    · intro a ha
      exact hpassed.namedHad a (hcons ▸ List.mem_cons_of_mem _ ha)
    · intro a ha
      rcases List.mem_append.mp ha with ha | ha
      · exact hpassed.notifyingHad a ha
      · rw [List.mem_singleton.mp ha]
        exact hhad
  have hfollowed₁ : r₁.Followed interested :=
    followed_watcher r w _ _ _ _ hfollowed hunits hcalls (fun _ _ _ => hmem _ rfl)
  refine told_following r' r₁ u v
    ⟨hshowing.inv, hshowing.known, hshowing.recent, hshowing.due⟩ hpassed₁ hfollowed₁
    (List.mem_append_right _ (List.mem_singleton_self _)) ?_ htoken (ht _ hcalled) hcall
  intro u' hu'
  rcases hcovered u' (hunits ▸ hu') with ⟨t, oldUnits, newUnits, hin, hout, hway⟩ | ⟨hin, htracked⟩
  · refine Or.inl ⟨t, oldUnits, newUnits, (hmem _ rfl).mpr hin, hout, ?_⟩
    rcases hway with hway | ⟨stat, hway⟩
    · exact Or.inl ((hmem _ rfl).mpr hway)
    · exact Or.inr ⟨stat, hanswered.symm ▸ hway⟩
  · refine Or.inr ⟨hin, ?_⟩
    cases htracked with
    | requested t hway => exact Or.inl (.requested t ((hmem _ rfl).mpr hway))
    | answered y hy => exact Or.inl (.answered y hy)
    | named y hy =>
      rw [hcons, List.mem_cons, Prod.mk.injEq] at hy
      rcases hy with ⟨hsame, -⟩ | hy
      · exact Or.inr hsame
      · exact Or.inl (.named y hy)
    | told y k hy hk hle =>
      refine Or.inl (.told y k ?_ hk hle)
      rcases hy with hy | hy
      · exact Or.inl (List.mem_append_left _ hy)
      · exact Or.inr hy

/-- A notification has ended, and the settings are watched. -/
theorem done_following (h : r.Following interested) (i : Nat) (u : U) (w : RelationUnitWatcher U)
    (hi : r.watcher.notifying[i]? = some u)
    (hw : w = { r.watcher with
      notifying := r.watcher.notifying.eraseIdx i
      settingsWatches := r.watcher.settingsWatches ++ [u] })
    (htoken : w.stopped = some false ∧ w.containerTokens = 1)
    (hcall : r.callBack { r.reads (.settingsDone i) with watcher := w } = .ok r') :
    r'.Following interested := by
  obtain ⟨hshowing, hpassed, hfollowed, hcovered, -⟩ := h
  have hcalls : w.calls = r.watcher.calls := by rw [hw]
  have hunits : w.units = r.watcher.units := by rw [hw]
  have hreq : w.requests = r.watcher.requests := by rw [hw]
  have hanswered : w.answered = r.watcher.answered := by rw [hw]
  rw [hpassed.notifying, List.getElem?_map, Option.map_eq_some_iff] at hi
  obtain ⟨⟨u', v⟩, hi, rfl⟩ := hi
  simp only [reads, hi] at hcall
  set r₁ : WatchedRelation U := { r with
    watcher := w
    notifying := r.notifying.eraseIdx i
    watched := r.watched ++ [(u', some v)] } with hr₁
  rw [callBack_none r r₁ hcalls (List.length_eraseIdx_le _ _)] at hcall
  obtain rfl := Except.ok.inj hcall
  refine ⟨⟨hshowing.inv, hshowing.known, hshowing.recent, hshowing.due⟩,
    ⟨?_, ?_, ?_, ?_, ?_, hpassed.answeredHad, hpassed.namedHad, ?_, ?_⟩,
    followed_watcher r w _ _ _ _ hfollowed hunits hcalls (by simp [hreq]), ?_, Or.inr htoken⟩
  · simp only [hr₁, hanswered, hpassed.answered]
  · simp only [hr₁, hreq, hpassed.named]
  · simp only [hr₁, hw, hpassed.notifying, List.eraseIdx_map]
  · simp only [hr₁, hw, hpassed.watched, List.map_append, List.map_cons, List.map_nil]
  · simp only [hr₁, hreq]
    exact hpassed.requestedHad
  · intro a ha
    exact hpassed.notifyingHad a (List.mem_of_mem_eraseIdx ha)
  · intro a ha
    rcases List.mem_append.mp ha with ha | ha
    · exact hpassed.watchedHad a ha
    · rw [List.mem_singleton.mp ha]
      exact ⟨v, rfl, hpassed.notifyingHad _ (List.mem_of_getElem? hi)⟩
  · intro u hu
    rcases hcovered u (hunits ▸ hu) with ⟨t, oldUnits, newUnits, hin, hout, hway⟩ | ⟨hin, htracked⟩
    · refine Or.inl ⟨t, oldUnits, newUnits, hreq.symm ▸ hin, hout, ?_⟩
      rcases hway with hway | ⟨stat, hway⟩
      · exact Or.inl (hreq.symm ▸ hway)
      · exact Or.inr ⟨stat, hanswered.symm ▸ hway⟩
    · refine Or.inr ⟨hin, ?_⟩
      cases htracked with
      | requested t hway => exact .requested t (hreq.symm ▸ hway)
      | answered y hy => exact .answered y hy
      | named y hy => exact .named y hy
      | told y k hy hk hle =>
        refine .told y k ?_ hk hle
        rcases hy with hy | hy
        · rcases RelationUnitWatcher.mem_eraseIdx_or _ i _ _ hi hy with hsame | hy
          · obtain ⟨rfl, rfl⟩ := Prod.mk.inj hsame
            exact Or.inr (List.mem_append_right _ (List.mem_singleton_self _))
          · exact Or.inl hy
        · exact Or.inr (List.mem_append_left _ hy)

/-- Settings that are watched have changed: they are read again, or are of no unit any more. -/
theorem fired_following (h : r.Following interested) (i : Nat) (u : U) (w : RelationUnitWatcher U)
    (hrun : r.watcher.stopped = some false) (hi : r.watcher.settingsWatches[i]? = some u)
    (hw : w = { r.watcher with
      settingsWatches := r.watcher.settingsWatches.eraseIdx i }.cbUnitChange u)
    (htoken : w.stopped = some false ∧ w.containerTokens = 1)
    (hcall : r.callBack { r.reads (.settingsFired i) with watcher := w } = .ok r') :
    r'.Following interested := by
  obtain ⟨hshowing, hpassed, hfollowed, hcovered, -⟩ := h
  have hread : w = { r.watcher with
      settingsWatches := r.watcher.settingsWatches.eraseIdx i
      requests := r.watcher.requests ++ if u ∈ r.watcher.units then [.settings u none] else [] } := by
    rw [hw, RelationUnitWatcher.cbUnitChange]
    by_cases hu : u ∈ r.watcher.units <;>
      simp [hu, hrun, RelationUnitWatcher.request]
  have hcalls : w.calls = r.watcher.calls := by rw [hread]
  have hunits : w.units = r.watcher.units := by rw [hread]
  have hanswered : w.answered = r.watcher.answered := by rw [hread]
  have hsub : r.watcher.requests ⊆ w.requests := by
    rw [hread]
    exact List.subset_append_left _ _
  have hnew (q : WatcherRequest U) (hq : q ∈ w.requests) :
      q ∈ r.watcher.requests ∨ q = .settings u none := by
    rw [hread] at hq
    rcases List.mem_append.mp hq with hq | hq
    · exact Or.inl hq
    · split at hq
      · exact Or.inr (List.mem_singleton.mp hq)
      · cases hq
  rw [hpassed.watched, List.getElem?_map, Option.map_eq_some_iff] at hi
  obtain ⟨⟨u', x⟩, hi, rfl⟩ := hi
  simp only [reads] at hcall
  set r₁ : WatchedRelation U := { r with
    watcher := w, watched := r.watched.eraseIdx i } with hr₁
  rw [callBack_none r r₁ hcalls (le_refl _)] at hcall
  obtain rfl := Except.ok.inj hcall
  refine ⟨⟨hshowing.inv, hshowing.known, hshowing.recent, hshowing.due⟩,
    ⟨?_, ?_, ?_, ?_, ?_, hpassed.answeredHad, hpassed.namedHad, hpassed.notifyingHad, ?_⟩,
    followed_watcher r w _ _ _ _ hfollowed hunits hcalls ?_, ?_, Or.inr htoken⟩
  · simp only [hr₁, hanswered, hpassed.answered]
  · simp only [hr₁, hread, List.filterMap_append, hpassed.named]
    split <;> simp [nameFor]
  · simp only [hr₁, hread, hpassed.notifying]
  · simp only [hr₁, hread, hpassed.watched, List.eraseIdx_map]
  · intro u task hin
    rcases hnew _ hin with hin | hsame
    · exact hpassed.requestedHad u task hin
    · obtain ⟨rfl, -⟩ := WatcherRequest.settings.inj hsame
      obtain ⟨v, -, n, hn, hle⟩ := hpassed.watchedHad _ (List.mem_of_getElem? hi)
      exact ⟨n, hn, by omega⟩
  · intro a ha
    exact hpassed.watchedHad a (List.mem_of_mem_eraseIdx ha)
  · intro t oldUnits newUnits
    refine ⟨fun hin => (hnew _ hin).resolve_right (by simp), fun hin => hsub hin⟩
  · intro u hu
    rcases hcovered u (hunits ▸ hu) with ⟨t, oldUnits, newUnits, hin, hout, hway⟩ | ⟨hin, htracked⟩
    · refine Or.inl ⟨t, oldUnits, newUnits, hsub hin, hout, ?_⟩
      rcases hway with hway | ⟨stat, hway⟩
      · exact Or.inl (hsub hway)
      · exact Or.inr ⟨stat, hanswered.symm ▸ hway⟩
    · refine Or.inr ⟨hin, ?_⟩
      cases htracked with
      | requested t hway => exact .requested t (hsub hway)
      | answered y hy => exact .answered y hy
      | named y hy => exact .named y hy
      | told y k hy hk hle =>
        rcases hy with hy | hy
        · exact .told y k (Or.inl hy) hk hle
        · rcases RelationUnitWatcher.mem_eraseIdx_or _ i _ _ hi hy with hsame | hy
          · obtain ⟨rfl, -⟩ := Prod.mk.inj hsame
            refine .requested none ?_
            have hu : u ∈ r.watcher.units := hunits ▸ hu
            simp [hr₁, hread, hu]
          · exact .told y k (Or.inr hy) hk hle

end WatchedRelation

end Juju.Hooks
