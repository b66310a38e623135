import Juju.Charm.CharmPublisher

namespace Juju.Charm
open Juju.Base

variable {D : Type} (charmId : String) (getUrl : String → String)

/-- What verifying a duplicate is to come to: a charm that went away, or that has another digest,
is a changed state, and otherwise there is a charm state to return. -/
def Verified (bundle : Bundle D) (node : Option (CharmData D))
    (value : Except PublishError (Option (CharmData D))) : Prop :=
  match node with
  | none => ∃ message, value = .error (.stateChanged message)
  | some data =>
    if data.sha256 = bundle.sha256 then value = .ok (some data)
    else ∃ message, value = .error (.stateChanged message)

theorem ebVerifyDuplicate_none (bundle : Bundle D) :
    ebVerifyDuplicate charmId bundle none = .error (.charmStateNotFound charmId) := rfl

/-- A deferred never is the string that it has as its result. -/
theorem ebVerifyDuplicate_some (bundle : Bundle D) (data : CharmData D) :
    ebVerifyDuplicate charmId bundle (some data) =
      .error (.stateChanged ("Concurrent upload of charm has different checksum " ++ charmId)) := by
  have hne : data.getSha256 ≠ bundle.getSha256 := nofun
  simp [ebVerifyDuplicate, getCharmState, getNode, hne]

/-- A duplicate is verified as it is to be just when another digest is stored. -/
theorem verified_iff (bundle : Bundle D) (node : Option (CharmData D)) :
    Verified bundle node (ebVerifyDuplicate charmId bundle node) ↔
      ∃ data, node = some data ∧ data.sha256 ≠ bundle.sha256 := by
  cases node with
  | none =>
    rw [ebVerifyDuplicate_none]
    simp [Verified]
  | some data =>
    rw [ebVerifyDuplicate_some]
    by_cases hsame : data.sha256 = bundle.sha256
    · simp [Verified, hsame]
    · simp [Verified, hsame]

namespace Upload

/-- Where the upload verifies a duplicate, another digest is stored. -/
def Mismatched (node : Option (CharmData D)) (u : Upload D) : Prop :=
  ∀ bundle, u = verifying bundle → ∃ data, node = some data ∧ data.sha256 ≠ bundle.sha256

/-- What the upload has come to is a charm state, or a change, with a digest other than its own
among the `offered` ones. -/
def Settled (offered : String → Prop) (u : Upload D) : Prop :=
  ∀ bundle value, u = done bundle value → (∃ data, value = .ok (some data)) ∨
    ((∃ message, value = .error (.stateChanged message)) ∧
      ∃ sha, offered sha ∧ sha ≠ bundle.sha256)

variable (node node' : Option (CharmData D)) (u u' : Upload D)

/-- What a reply makes of an upload and of the node. -/
theorem reply_cases (h : u.reply charmId getUrl node = some (u', node')) :
    (∃ bundle, u = putting bundle ∧
      u' = storing bundle (getUrl (charmStorePath charmId bundle)) ∧ node' = node) ∨
    (∃ bundle url data, u = storing bundle url ∧ node = some data ∧ u' = verifying bundle ∧
      node' = node) ∨
    (∃ bundle url, u = storing bundle url ∧ node = none ∧
      u' = done bundle (.ok (some ⟨bundle.config, bundle.metadata, bundle.sha256, url⟩)) ∧
      node' = some ⟨bundle.config, bundle.metadata, bundle.sha256, url⟩) ∨
    (∃ bundle, u = verifying bundle ∧
      u' = done bundle (ebVerifyDuplicate charmId bundle node) ∧ node' = node) := by
  cases u with
  | putting bundle =>
    obtain ⟨rfl, rfl⟩ := Prod.mk.inj (Option.some.inj h)
    exact .inl ⟨bundle, rfl, rfl, rfl⟩
  | storing bundle url =>
    cases node with
    | some data =>
      obtain ⟨rfl, rfl⟩ := Prod.mk.inj (Option.some.inj h)
      exact .inr (.inl ⟨bundle, url, data, rfl, rfl, rfl, rfl⟩)
    | none =>
      obtain ⟨rfl, rfl⟩ := Prod.mk.inj (Option.some.inj h)
      exact .inr (.inr (.inl ⟨bundle, url, rfl, rfl, rfl, rfl⟩))
  | verifying bundle =>
    obtain ⟨rfl, rfl⟩ := Prod.mk.inj (Option.some.inj h)
    exact .inr (.inr (.inr ⟨bundle, rfl, rfl, rfl⟩))
  | done bundle value => cases h

theorem reply_bundle (h : u.reply charmId getUrl node = some (u', node')) :
    u'.bundle = u.bundle := by
  obtain ⟨bundle, rfl, rfl, _⟩ | ⟨bundle, url, data, rfl, _, rfl, _⟩ | ⟨bundle, url, rfl, _, rfl, _⟩
    | ⟨bundle, rfl, rfl, _⟩ := reply_cases charmId getUrl node node' u u' h
  all_goals rfl

theorem reply_remaining (h : u.reply charmId getUrl node = some (u', node')) :
    u'.remaining < u.remaining := by
  obtain ⟨bundle, rfl, rfl, _⟩ | ⟨bundle, url, data, rfl, _, rfl, _⟩ | ⟨bundle, url, rfl, _, rfl, _⟩
    | ⟨bundle, rfl, rfl, _⟩ := reply_cases charmId getUrl node node' u u' h
  all_goals simp [remaining]

theorem reply_waiting (h : 0 < u.remaining) :
    ∃ after, u.reply charmId getUrl node = some after := by
  cases u with
  | putting bundle => exact ⟨_, rfl⟩
  | storing bundle url =>
    cases node with
    | none => exact ⟨_, rfl⟩
    | some data => exact ⟨_, rfl⟩
  | verifying bundle => exact ⟨_, rfl⟩
  | done bundle value => exact absurd h (Nat.lt_irrefl 0)

/-- The node holds what it held, or the upload's own digest. -/
theorem reply_node (h : u.reply charmId getUrl node = some (u', node')) :
    node' = node ∨ ∃ data, node' = some data ∧ data.sha256 = u.bundle.sha256 := by
  obtain ⟨bundle, rfl, rfl, hnode⟩ | ⟨bundle, url, data, rfl, _, rfl, hnode⟩ |
    ⟨bundle, url, rfl, _, rfl, hnode⟩ | ⟨bundle, rfl, rfl, hnode⟩ :=
    reply_cases charmId getUrl node node' u u' h
  · exact .inl hnode
  · exact .inl hnode
  · exact .inr ⟨_, hnode, rfl⟩
  · exact .inl hnode

theorem reply_settled (offered : String → Prop) (hu : u.Mismatched node)
    (hnode : ∀ data, node = some data → offered data.sha256)
    (h : u.reply charmId getUrl node = some (u', node')) : u'.Settled offered := by
  intro bundle' value hdone
  obtain ⟨bundle, rfl, rfl, _⟩ | ⟨bundle, url, data, rfl, _, rfl, _⟩ | ⟨bundle, url, rfl, _, rfl, _⟩
    | ⟨bundle, rfl, rfl, _⟩ := reply_cases charmId getUrl node node' u u' h
  · cases hdone
  · cases hdone
  · cases hdone
    exact .inl ⟨_, rfl⟩
  · obtain ⟨data, rfl, hne⟩ := hu bundle rfl
    obtain ⟨rfl, rfl⟩ := Upload.done.inj hdone
    exact .inr ⟨⟨_, ebVerifyDuplicate_some charmId bundle data⟩, data.sha256, hnode data rfl, hne⟩

/-- A verified duplicate has failed with a changed state. -/
theorem verifying_failure (bundle : Bundle D)
    (hu : (verifying bundle).Mismatched node) :
    ∃ message, (done bundle (ebVerifyDuplicate charmId bundle node)).failure? =
      some (.stateChanged message) := by
  obtain ⟨data, rfl, _⟩ := hu bundle rfl
  rw [ebVerifyDuplicate_some]
  exact ⟨_, rfl⟩

end Upload

namespace PublishRun

/-- What a call has come to, where its failures are changed states over two `offered` digests. -/
structure Sound (offered : String → Prop) (run : PublishRun D) : Prop where
  settled : ∀ u ∈ run.uploads, u.Settled offered
  quiet : run.failure = none → ∀ u ∈ run.uploads, u.failure? = none
  failed : ∀ e, run.failure = some e → (∃ message, e = .stateChanged message) ∧
    ∃ sha sha', offered sha ∧ offered sha' ∧ sha ≠ sha'

theorem Sound.mono {offered offered' : String → Prop} {run : PublishRun D}
    (h : run.Sound offered) (hle : ∀ sha, offered sha → offered' sha) : run.Sound offered' where
  settled u hu bundle value hdone := by
    have hsettled := h.settled u hu bundle value hdone
    cases hsettled with
    | inl hok => exact .inl hok
    | inr herror =>
      obtain ⟨hmessage, sha, hsha, hne⟩ := herror
      exact .inr ⟨hmessage, sha, hle sha hsha, hne⟩
  quiet := h.quiet
  failed e he := by
    obtain ⟨hmessage, sha, sha', hsha, hsha', hne⟩ := h.failed e he
    exact ⟨hmessage, sha, sha', hle sha hsha, hle sha' hsha', hne⟩

theorem publishOne_value (cache : Option (CharmData D)) (bundle bundle' : Bundle D)
    (value : Except PublishError (Option (CharmData D)))
    (h : Upload.publishOne cache bundle = .done bundle' value) :
    ∃ data, value = .ok (some data) := by
  cases cache with
  | none => cases h
  | some data =>
    cases h
    exact ⟨data, rfl⟩

theorem start_sound (offered : String → Prop) (cache : Option (CharmData D))
    (bundles : List (Bundle D)) : (start cache bundles).Sound offered where
  settled u hu bundle value hdone := by
    obtain ⟨bundle', _, rfl⟩ := List.mem_map.mp hu
    exact .inl (publishOne_value cache bundle' bundle value hdone)
  quiet _ u hu := by
    obtain ⟨bundle, _, rfl⟩ := List.mem_map.mp hu
    cases cache <;> rfl
  failed e he := by cases he

/-- A failure of an upload that has settled. -/
theorem settled_failure (offered : String → Prop) (u : Upload D) (h : u.Settled offered)
    (hown : offered u.bundle.sha256) (e : PublishError) (he : u.failure? = some e) :
    (∃ message, e = .stateChanged message) ∧
      ∃ sha sha', offered sha ∧ offered sha' ∧ sha ≠ sha' := by
  cases u with
  | putting bundle => cases he
  | storing bundle url => cases he
  | verifying bundle => cases he
  | done bundle value =>
    cases value with
    | ok value => cases he
    | error e' =>
      cases he
      cases h bundle _ rfl with
      | inl hok =>
        obtain ⟨data, hdata⟩ := hok
        cases hdata
      | inr herror =>
        obtain ⟨⟨message, hmessage⟩, sha, hsha, hne⟩ := herror
        cases hmessage
        exact ⟨⟨message, rfl⟩, sha, _, hsha, hown, hne⟩

theorem setUpload_sound (offered : String → Prop) (run : PublishRun D) (i : Nat) (u : Upload D)
    (h : run.Sound offered) (hu : u.Settled offered) (hown : offered u.bundle.sha256) :
    (run.setUpload i u).Sound offered where
  settled v hv := by
    cases List.mem_or_eq_of_mem_set hv with
    | inl hold => exact h.settled v hold
    | inr hnew =>
      rw [hnew]
      exact hu
  quiet hnone v hv := by
    have hboth : run.failure = none ∧ u.failure? = none := Option.or_eq_none_iff.mp hnone
    cases List.mem_or_eq_of_mem_set hv with
    | inl hold => exact h.quiet hboth.1 v hold
    | inr hnew =>
      rw [hnew]
      exact hboth.2
  failed e he := by
    have hfirst : run.failure = some e ∨ run.failure = none ∧ u.failure? = some e :=
      Option.or_eq_some_iff.mp he
    cases hfirst with
    | inl hrun => exact h.failed e hrun
    | inr hupload => exact settled_failure offered u hu hown e hupload.2

theorem settled_value (offered : String → Prop) (u : Upload D) (h : u.Settled offered)
    (value : Option (CharmData D)) (hvalue : u.value? = some value) :
    ∃ data, value = some data := by
  cases u with
  | putting bundle => cases hvalue
  | storing bundle url => cases hvalue
  | verifying bundle => cases hvalue
  | done bundle outcome =>
    cases outcome with
    | error e => cases hvalue
    | ok found =>
      cases hvalue
      cases h bundle _ rfl with
      | inl hok =>
        obtain ⟨data, hdata⟩ := hok
        exact ⟨data, Except.ok.inj hdata⟩
      | inr herror =>
        obtain ⟨⟨message, hmessage⟩, _⟩ := herror
        cases hmessage

/-- The values of uploads that have settled without a failure. -/
theorem settled_values (offered : String → Prop) (uploads : List (Upload D))
    (h : ∀ u ∈ uploads, u.Settled offered) (values : List (Option (CharmData D)))
    (hmap : uploads.mapM Upload.value? = some values) :
    ∃ states : List (CharmData D), values = states.map some ∧ states.length = uploads.length := by
  induction uploads generalizing values with
  | nil =>
    cases hmap
    exact ⟨[], rfl, rfl⟩
  | cons u uploads ih =>
    rw [List.mapM_cons] at hmap
    obtain ⟨value, hvalue, hmap⟩ := Option.bind_eq_some_iff.mp hmap
    obtain ⟨rest, hrest, hmap⟩ := Option.bind_eq_some_iff.mp hmap
    cases hmap
    have hsettled := h u List.mem_cons_self
    have hrestSettled := fun v hv => h v (List.mem_cons_of_mem _ hv)
    obtain ⟨states, rfl, hlength⟩ := ih hrestSettled rest hrest
    obtain ⟨data, rfl⟩ := settled_value offered u hsettled value hvalue
    exact ⟨data :: states, rfl, congrArg (· + 1) hlength⟩

/-- A call in which no two digests were offered returns a charm state for each charm. -/
theorem sound_result (offered : String → Prop) (run : PublishRun D) (h : run.Sound offered)
    (hsame : ∀ sha sha', offered sha → offered sha' → sha = sha') :
    run.failure = none ∧ ∀ r, run.result = some r → ∃ states : List (CharmData D),
      r = .ok (states.map some) ∧ states.length = run.uploads.length := by
  have hquiet : run.failure = none := by
    cases hfailure : run.failure with
    | none => rfl
    | some e =>
      obtain ⟨_, sha, sha', hsha, hsha', hne⟩ := h.failed e hfailure
      exact absurd (hsame sha sha' hsha hsha') hne
  refine ⟨hquiet, fun r hr => ?_⟩
  have hresult : (run.uploads.mapM Upload.value?).map Except.ok = some r := by
    simpa [result, hquiet] using hr
  obtain ⟨values, hmap, rfl⟩ := Option.map_eq_some_iff.mp hresult
  obtain ⟨states, rfl, hlength⟩ := settled_values offered run.uploads h.settled values hmap
  exact ⟨states, rfl, hlength⟩

end PublishRun

namespace Publishing

variable {P : Type}

/-- The digest of a bundle that some call publishes. -/
def Offered (s : Publishing P D) (sha : String) : Prop :=
  ∃ run ∈ s.runs, ∃ u ∈ run.uploads, u.bundle.sha256 = sha

/-- All bundles have the same digest. -/
def SameDigest (s : Publishing P D) : Prop :=
  ∀ sha sha', s.Offered sha → s.Offered sha' → sha = sha'

/-- A duplicate is verified only while a charm with another digest is stored. -/
def Mismatched (s : Publishing P D) : PublishEvent P D → Prop
  | .reply k i => ∀ run u, s.runs[k]? = some run → run.uploads[i]? = some u → u.Mismatched s.node
  | _ => True

/-- What is stored was offered, and the calls are sound. -/
structure Sound (s : Publishing P D) : Prop where
  stored : ∀ data, s.node = some data → s.Offered data.sha256
  runs : ∀ run ∈ s.runs, run.Sound s.Offered

/-- A reply answers one upload of one call. -/
theorem reply_cases (s s' : Publishing P D) (k i : Nat)
    (h : s.reply charmId getUrl k i = some s') : ∃ run u u' node', s.runs[k]? = some run ∧
      run.uploads[i]? = some u ∧ u.reply charmId getUrl s.node = some (u', node') ∧
      s' = { s with node := node', runs := s.runs.set k (run.setUpload i u') } := by
  obtain ⟨run, hrun, h⟩ := Option.bind_eq_some_iff.mp h
  obtain ⟨u, hu, h⟩ := Option.bind_eq_some_iff.mp h
  obtain ⟨⟨u', node'⟩, hreply, h⟩ := Option.bind_eq_some_iff.mp h
  exact ⟨run, u, u', node', hrun, hu, hreply, (Option.some.inj h).symm⟩

theorem offered_append (s : Publishing P D) (run : PublishRun D) (sha : String)
    (h : s.Offered sha) : Offered { s with runs := s.runs ++ [run] } sha := by
  obtain ⟨old, hold, hu⟩ := h
  exact ⟨old, List.mem_append_left _ hold, hu⟩

/-- A reply does not change what bundles there are. -/
theorem offered_set (s : Publishing P D) (node' : Option (CharmData D)) (k i : Nat)
    (run : PublishRun D) (u u' : Upload D) (hrun : s.runs[k]? = some run)
    (hu : run.uploads[i]? = some u) (hbundle : u'.bundle = u.bundle) (sha : String)
    (h : s.Offered sha) :
    Offered { s with node := node', runs := s.runs.set k (run.setUpload i u') } sha := by
  obtain ⟨old, hold, v, hv, hsha⟩ := h
  obtain ⟨k', hk', rfl⟩ := List.mem_iff_getElem.mp hold
  obtain ⟨i', hi', rfl⟩ := List.mem_iff_getElem.mp hv
  by_cases hk : k = k'
  · subst hk
    obtain rfl : s.runs[k] = run := Option.some.inj ((List.getElem?_eq_getElem hk').symm.trans hrun)
    refine ⟨s.runs[k].setUpload i u', List.mem_set hk' _, ?_⟩
    by_cases hi : i = i'
    · subst hi
      have hold : s.runs[k].uploads[i] = u :=
        Option.some.inj ((List.getElem?_eq_getElem hi').symm.trans hu)
      refine ⟨u', List.mem_set hi' _, ?_⟩
      rw [hbundle, ← hold, hsha]
    · refine ⟨s.runs[k].uploads[i'], List.mem_iff_getElem?.mpr ⟨i', ?_⟩, hsha⟩
      show (s.runs[k].uploads.set i u')[i']? = _
      rw [List.getElem?_set_ne hi, List.getElem?_eq_getElem hi']
  · refine ⟨s.runs[k'], List.mem_iff_getElem?.mpr ⟨k', ?_⟩, s.runs[k'].uploads[i'],
      List.getElem_mem hi', hsha⟩
    show (s.runs.set k (run.setUpload i u'))[k']? = _
    rw [List.getElem?_set_ne hk, List.getElem?_eq_getElem hk']

theorem reply_sound (s s' : Publishing P D) (k i : Nat) (hs : s.Sound)
    (hfine : s.Mismatched (.reply k i)) (h : s.reply charmId getUrl k i = some s') :
    s'.Sound := by
  obtain ⟨run, u, u', node', hrun, hu, hreply, rfl⟩ := reply_cases charmId getUrl s s' k i h
  have hbundle := Upload.reply_bundle charmId getUrl s.node node' u u' hreply
  have hmono := offered_set s node' k i run u u' hrun hu hbundle
  have hown : s.Offered u.bundle.sha256 :=
    ⟨run, List.mem_of_getElem? hrun, u, List.mem_of_getElem? hu, rfl⟩
  have hsettled := Upload.reply_settled charmId getUrl s.node node' u u' s.Offered
    (hfine run u hrun hu) hs.stored hreply
  constructor
  · intro data hdata
    apply hmono
    cases Upload.reply_node charmId getUrl s.node node' u u' hreply with
    | inl hsame => exact hs.stored data (hsame ▸ hdata)
    | inr hnew =>
      obtain ⟨data', hdata', hsha⟩ := hnew
      obtain rfl : data' = data := Option.some.inj (hdata'.symm.trans hdata)
      rw [hsha]
      exact hown
  · intro run' hrun'
    cases List.mem_or_eq_of_mem_set hrun' with
    | inl hold => exact (hs.runs run' hold).mono hmono
    | inr hnew =>
      have hsound := hs.runs run (List.mem_of_getElem? hrun)
      rw [hnew]
      apply (PublishRun.setUpload_sound s.Offered run i u' hsound hsettled _).mono hmono
      rw [hbundle]
      exact hown

variable [DecidableEq P]

theorem step_sound (s s' : Publishing P D) (e : PublishEvent P D) (hs : s.Sound)
    (hfine : s.Mismatched e) (h : s.step charmId getUrl e = some s') : s'.Sound := by
  cases e with
  | addCharm p =>
    obtain rfl := Option.some.inj h
    exact ⟨hs.stored, hs.runs⟩
  | check p =>
    obtain ⟨_, _, rfl⟩ := Option.map_eq_some_iff.mp h
    exact ⟨hs.stored, hs.runs⟩
  | answer p =>
    obtain ⟨_, _, rfl⟩ := Option.map_eq_some_iff.mp h
    exact ⟨hs.stored, hs.runs⟩
  | publish p bundles =>
    obtain ⟨_, h⟩ := Option.ite_none_right_eq_some.mp h
    obtain rfl := Option.some.inj h
    have hmono := offered_append s (.start (s.publishers p).charmStateCache bundles)
    refine ⟨fun data hdata => hmono _ (hs.stored data hdata), fun run hrun => ?_⟩
    cases List.mem_append.mp hrun with
    | inl hold => exact (hs.runs run hold).mono hmono
    | inr hnew =>
      obtain rfl := List.mem_singleton.mp hnew
      exact PublishRun.start_sound _ _ _
  | reply k i => exact reply_sound charmId getUrl s s' k i hs hfine h
  | remove =>
    obtain rfl := Option.some.inj h
    exact ⟨nofun, hs.runs⟩

theorem publishing_sound (s : Publishing P D)
    (h : Reachable Initial (step charmId getUrl) Mismatched s) : s.Sound := by
  apply reachable_invariant Sound _ (step_sound charmId getUrl) s h
  intro s hs
  refine ⟨fun data hdata => ?_, fun run hrun => ?_⟩
  · rw [hs.1] at hdata
    cases hdata
  · rw [hs.2.2] at hrun
    cases hrun

/-- An upload that finds a charm stored leaves it, and verifies it. -/
theorem storing_duplicate (s s' : Publishing P D) (k i : Nat) (run : PublishRun D)
    (bundle : Bundle D) (url : String) (data : CharmData D) (hnode : s.node = some data)
    (h : s.step charmId getUrl (.reply k i) = some s') (hrun : s.runs[k]? = some run)
    (hu : run.uploads[i]? = some (.storing bundle url)) :
    s'.node = s.node ∧
      ∃ run', s'.runs[k]? = some run' ∧ run'.uploads[i]? = some (.verifying bundle) := by
  obtain ⟨run₀, u, u', node', hrun₀, hu₀, hreply, rfl⟩ := reply_cases charmId getUrl s s' k i h
  obtain rfl : run₀ = run := Option.some.inj (hrun₀.symm.trans hrun)
  obtain rfl : u = .storing bundle url := Option.some.inj (hu₀.symm.trans hu)
  have hk : k < s.runs.length := (List.getElem?_eq_some_iff.mp hrun).1
  have hi : i < run₀.uploads.length := (List.getElem?_eq_some_iff.mp hu).1
  rw [hnode] at hreply
  obtain ⟨rfl, rfl⟩ := Prod.mk.inj (Option.some.inj hreply)
  exact ⟨hnode.symm, _, List.getElem?_set_self hk, List.getElem?_set_self hi⟩

/-- A call whose duplicate was verified against another digest has failed. -/
theorem verifying_result (s s' : Publishing P D) (k i : Nat) (run : PublishRun D)
    (bundle : Bundle D) (hs : s.Sound) (hfine : s.Mismatched (.reply k i))
    (h : s.step charmId getUrl (.reply k i) = some s') (hrun : s.runs[k]? = some run)
    (hu : run.uploads[i]? = some (.verifying bundle)) :
    ∃ run' message, s'.runs[k]? = some run' ∧
      run'.result = some (.error (.stateChanged message)) := by
  obtain ⟨run₀, u, u', node', hrun₀, hu₀, hreply, rfl⟩ := reply_cases charmId getUrl s s' k i h
  obtain rfl : run₀ = run := Option.some.inj (hrun₀.symm.trans hrun)
  obtain rfl : u = .verifying bundle := Option.some.inj (hu₀.symm.trans hu)
  obtain ⟨rfl, rfl⟩ := Prod.mk.inj (Option.some.inj hreply)
  obtain ⟨message, hmessage⟩ := Upload.verifying_failure charmId s.node bundle
    (hfine run₀ _ hrun hu)
  have hk : k < s.runs.length := (List.getElem?_eq_some_iff.mp hrun).1
  refine ⟨run₀.setUpload i (.done bundle (ebVerifyDuplicate charmId bundle s.node)), ?_⟩
  cases hfailure : run₀.failure with
  | none =>
    refine ⟨message, List.getElem?_set_self hk, ?_⟩
    simp only [PublishRun.result, PublishRun.setUpload, hfailure, hmessage, Option.none_or]
  | some e =>
    have hsound := hs.runs run₀ (List.mem_of_getElem? hrun)
    obtain ⟨⟨message', rfl⟩, _⟩ := hsound.failed e hfailure
    refine ⟨message', List.getElem?_set_self hk, ?_⟩
    simp only [PublishRun.result, PublishRun.setUpload, hfailure, Option.some_or]

/-- The duplicates that an event verifies come to what they are to come to. -/
def VerifiesDuplicates (s s' : Publishing P D) : PublishEvent P D → Prop
  | .reply k i => ∀ run bundle, s.runs[k]? = some run →
      run.uploads[i]? = some (.verifying bundle) → ∃ run' value, s'.runs[k]? = some run' ∧
        run'.uploads[i]? = some (.done bundle value) ∧ Verified bundle s.node value
  | _ => True

theorem verifiesDuplicates_iff (s s' : Publishing P D) (e : PublishEvent P D)
    (h : s.step charmId getUrl e = some s') : s.Mismatched e ↔ s.VerifiesDuplicates s' e := by
  cases e with
  | reply k i =>
    obtain ⟨run, u, u', node', hrun, hu, hreply, rfl⟩ := reply_cases charmId getUrl s s' k i h
    have hk : k < s.runs.length := (List.getElem?_eq_some_iff.mp hrun).1
    have hi : i < run.uploads.length := (List.getElem?_eq_some_iff.mp hu).1
    have hrun' := List.getElem?_set_self (a := run.setUpload i u') hk
    have hu' : (run.setUpload i u').uploads[i]? = some u' := List.getElem?_set_self hi
    constructor
    · intro hfine run₀ bundle hrun₀ hbundle
      obtain rfl : run = run₀ := Option.some.inj (hrun.symm.trans hrun₀)
      obtain rfl : u = .verifying bundle := Option.some.inj (hu.symm.trans hbundle)
      obtain ⟨rfl, rfl⟩ := Prod.mk.inj (Option.some.inj hreply)
      have hverified := (verified_iff charmId bundle s.node).mpr (hfine run _ hrun hu bundle rfl)
      exact ⟨_, _, hrun', hu', hverified⟩
    · intro hverifies run₀ u₀ hrun₀ hu₀ bundle hbundle
      obtain rfl : run = run₀ := Option.some.inj (hrun.symm.trans hrun₀)
      obtain rfl : u = u₀ := Option.some.inj (hu.symm.trans hu₀)
      subst hbundle
      obtain ⟨rfl, rfl⟩ := Prod.mk.inj (Option.some.inj hreply)
      obtain ⟨run', value, hafter, hdone, hverified⟩ := hverifies run bundle hrun hu
      obtain rfl := Option.some.inj (hrun'.symm.trans hafter)
      have hvalue := Upload.done.inj (Option.some.inj (hu'.symm.trans hdone))
      rw [← hvalue.2] at hverified
      exact (verified_iff charmId bundle s.node).mp hverified
  | addCharm p => exact Iff.rfl
  | check p => exact Iff.rfl
  | answer p => exact Iff.rfl
  | publish p bundles => exact Iff.rfl
  | remove => exact Iff.rfl

/-- An upload that waits has its reply, after which it waits for less. -/
theorem waiting_goes_on (s : Publishing P D) (k i : Nat) (run : PublishRun D) (u : Upload D)
    (hrun : s.runs[k]? = some run) (hu : run.uploads[i]? = some u) (hwaits : 0 < u.remaining) :
    ∃ s' run' u', s.step charmId getUrl (.reply k i) = some s' ∧ s'.runs[k]? = some run' ∧
      run'.uploads[i]? = some u' ∧ u'.remaining < u.remaining := by
  obtain ⟨⟨u', node'⟩, hreply⟩ := Upload.reply_waiting charmId getUrl s.node u hwaits
  have hk : k < s.runs.length := (List.getElem?_eq_some_iff.mp hrun).1
  have hi : i < run.uploads.length := (List.getElem?_eq_some_iff.mp hu).1
  refine ⟨{ s with node := node', runs := s.runs.set k (run.setUpload i u') },
    run.setUpload i u', u', ?_, List.getElem?_set_self hk, List.getElem?_set_self hi,
    Upload.reply_remaining charmId getUrl s.node node' u u' hreply⟩
  show s.reply charmId getUrl k i = _
  simp only [reply, hrun, hu, hreply, Option.bind_eq_bind, Option.bind_some, Option.pure_def]

/-- Where duplicates are verified only against other digests, calls that publish the same digest
return a charm state for each of their charms, and a call with a duplicate fails with a changed
state. Each event verifies duplicates as it is to just when it is such. -/
theorem concurrent_publication (s : Publishing P D)
    (h : Reachable Initial (step charmId getUrl) Mismatched s) :
    (s.SameDigest → ∀ run ∈ s.runs, run.failure = none ∧ ∀ r, run.result = some r →
      ∃ states : List (CharmData D), r = .ok (states.map some) ∧
        states.length = run.uploads.length) ∧
    (∀ k i run u, s.runs[k]? = some run → run.uploads[i]? = some u → 0 < u.remaining →
      ∃ s' run' u', s.step charmId getUrl (.reply k i) = some s' ∧ s'.runs[k]? = some run' ∧
        run'.uploads[i]? = some u' ∧ u'.remaining < u.remaining) ∧
    (∀ k i run bundle url data s', s.node = some data →
      s.step charmId getUrl (.reply k i) = some s' → s.runs[k]? = some run →
      run.uploads[i]? = some (.storing bundle url) → s'.node = s.node ∧
        ∃ run', s'.runs[k]? = some run' ∧ run'.uploads[i]? = some (.verifying bundle)) ∧
    (∀ k i run bundle s', s.Mismatched (.reply k i) →
      s.step charmId getUrl (.reply k i) = some s' → s.runs[k]? = some run →
      run.uploads[i]? = some (.verifying bundle) → ∃ run' message, s'.runs[k]? = some run' ∧
        run'.result = some (.error (.stateChanged message))) ∧
    ∀ e s', s.step charmId getUrl e = some s' → (s.Mismatched e ↔ s.VerifiesDuplicates s' e) := by
  have hs := publishing_sound charmId getUrl s h
  refine ⟨fun hsame run hrun => ?_, waiting_goes_on charmId getUrl s, ?_, ?_, fun e s' =>
    verifiesDuplicates_iff charmId getUrl s s' e⟩
  · exact PublishRun.sound_result s.Offered run (hs.runs run hrun) hsame
  · intro k i run bundle url data s' hnode hstep hrun hu
    exact storing_duplicate charmId getUrl s s' k i run bundle url data hnode hstep hrun hu
  · intro k i run bundle s' hfine hstep hrun hu
    exact verifying_result charmId getUrl s s' k i run bundle hs hfine hstep hrun hu

section twoPublishers

def sampleBundle (sha256 : String) : Bundle Unit := ⟨(), (), sha256⟩

def noCharm : Publishing Bool Unit := ⟨none, fun _ => ⟨0, 0, [], none⟩, []⟩

theorem noCharm_initial : noCharm.Initial := ⟨rfl, fun _ => rfl, rfl⟩

def sampleStep : Publishing Bool Unit → PublishEvent Bool Unit → Option (Publishing Bool Unit) :=
  step "local:series/dummy-1" ("file:///storage/" ++ ·)

theorem mismatched_reply (s : Publishing Bool Unit) (k i : Nat) (run : PublishRun Unit)
    (u : Upload Unit) (hrun : s.runs[k]? = some run) (hu : run.uploads[i]? = some u)
    (h : u.Mismatched s.node) : s.Mismatched (.reply k i) := by
  intro run' u' hrun' hu'
  obtain rfl : run = run' := Option.some.inj (hrun.symm.trans hrun')
  obtain rfl : u = u' := Option.some.inj (hu.symm.trans hu')
  exact h

/-- Two publishers find no charm, put their bundles, and the first one has stored its own when the
second one stores. -/
theorem both_stored (first second : Bundle Unit) :
    ∃ s data, Reachable Initial sampleStep Mismatched s ∧ s.node = some data ∧
      data.sha256 = first.sha256 ∧ s.runs = [⟨[.done first (.ok (some data))], none⟩,
        ⟨[.verifying second], none⟩] := by
  let events : List (PublishEvent Bool Unit) := [.addCharm false, .check false, .answer false,
    .addCharm true, .check true, .answer true, .publish false [first], .publish true [second]]
  have hfine : ∀ e ∈ events, ∀ s : Publishing Bool Unit, s.Mismatched e := by
    simp [events, Mismatched]
  have hput : Reachable Initial sampleStep Mismatched _ :=
    reachable_events events hfine noCharm _ (.init noCharm noCharm_initial) rfl
  have hfirst : Reachable Initial sampleStep Mismatched _ :=
    .step _ _ (PublishEvent.reply 0 0) hput (mismatched_reply _ 0 0 _ _ rfl rfl nofun) rfl
  have hsecond : Reachable Initial sampleStep Mismatched _ :=
    .step _ _ (PublishEvent.reply 1 0) hfirst (mismatched_reply _ 1 0 _ _ rfl rfl nofun) rfl
  have hstored : Reachable Initial sampleStep Mismatched _ :=
    .step _ _ (PublishEvent.reply 0 0) hsecond (mismatched_reply _ 0 0 _ _ rfl rfl nofun) rfl
  have hverifying : Reachable Initial sampleStep Mismatched _ :=
    .step _ _ (PublishEvent.reply 1 0) hstored (mismatched_reply _ 1 0 _ _ rfl rfl nofun) rfl
  exact ⟨_, _, hverifying, rfl, rfl, rfl⟩

theorem both_offered (s : Publishing Bool Unit) (data : CharmData Unit) (first second : Bundle Unit)
    (hruns : s.runs = [⟨[.done first (.ok (some data))], none⟩, ⟨[.verifying second], none⟩])
    (hsame : second.sha256 = first.sha256) : s.SameDigest := by
  have hfirst (sha : String) (h : s.Offered sha) : sha = first.sha256 := by
    obtain ⟨run, hrun, u, hu, rfl⟩ := h
    rw [hruns] at hrun
    cases List.mem_cons.mp hrun with
    | inl hrun =>
      subst hrun
      obtain rfl := List.mem_singleton.mp hu
      rfl
    | inr hrun =>
      obtain rfl := List.mem_singleton.mp hrun
      obtain rfl := List.mem_singleton.mp hu
      exact hsame
  intro sha sha' hsha hsha'
  exact (hfirst sha hsha).trans (hfirst sha' hsha').symm

theorem concurrent_publication_conflict :
    ∃ s s' run' message, Reachable Initial sampleStep Mismatched s ∧
      sampleStep s (.reply 1 0) = some s' ∧ s'.runs[1]? = some run' ∧
      run'.result = some (.error (.stateChanged message)) := by
  obtain ⟨s, data, hs, hnode, hsha, hruns⟩ := both_stored (sampleBundle "1") (sampleBundle "2")
  have hrun : s.runs[1]? = some ⟨[.verifying (sampleBundle "2")], none⟩ := by rw [hruns]; rfl
  have hmismatched : s.Mismatched (.reply 1 0) := by
    apply mismatched_reply s 1 0 _ _ hrun rfl
    intro bundle hbundle
    cases hbundle
    exact ⟨data, hnode, by rw [hsha]; decide⟩
  obtain ⟨_, hgoes, _, hfails, _⟩ := concurrent_publication _ _ s hs
  obtain ⟨s', _, _, hstep, _⟩ := hgoes 1 0 _ _ hrun rfl Nat.zero_lt_one
  obtain ⟨run', message, hrun', hresult⟩ := hfails 1 0 _ _ s' hmismatched hstep hrun rfl
  exact ⟨s, s', run', message, hs, hstep, hrun', hresult⟩

/-- Of two publishers of one bundle the second one fails, and where the charm was removed it does
not fail with a changed state. -/
theorem same_bundle_fails :
    ∃ s removed failed missing, Reachable Initial sampleStep (fun _ _ => True) s ∧ s.SameDigest ∧
      sampleStep s (.reply 1 0) = some failed ∧
      failed.runs[1]?.bind PublishRun.result = some (.error
        (.stateChanged "Concurrent upload of charm has different checksum local:series/dummy-1")) ∧
      sampleStep s .remove = some removed ∧ sampleStep removed (.reply 1 0) = some missing ∧
      missing.runs[1]?.bind PublishRun.result =
        some (.error (.charmStateNotFound "local:series/dummy-1")) := by
  obtain ⟨s, data, hs, hnode, hsha, hruns⟩ := both_stored (sampleBundle "1") (sampleBundle "1")
  have htrue := reachable_mono (fun _ _ => True) (fun _ _ _ => trivial) s hs
  obtain ⟨node, publishers, runs⟩ := s
  cases hnode
  cases hruns
  exact ⟨_, _, _, _, htrue, both_offered _ data _ _ rfl rfl, rfl, rfl, rfl, rfl, rfl⟩

end twoPublishers

end Publishing

end Juju.Charm
