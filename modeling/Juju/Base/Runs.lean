namespace Juju.Base

section runs

variable {S E : Type} (init : S → Prop) (step : S → E → Option S) (fine : S → E → Prop)

/-- The states that events lead to, each of which is `fine` when it happens. -/
inductive Reachable : S → Prop where
  | init (s : S) : init s → Reachable s
  | step (s s' : S) (e : E) : Reachable s → fine s e → step s e = some s' → Reachable s'

/-- The states reached since a step that `begins` something, with `keeps` in each of them. -/
inductive Throughout (begins : S → S → Prop) (keeps : S → Prop) : S → Prop where
  | begins (s s' : S) (e : E) : Reachable init step fine s → fine s e → step s e = some s' →
      begins s s' → keeps s' → Throughout begins keeps s'
  | goesOn (s s' : S) (e : E) : Throughout begins keeps s → fine s e → step s e = some s' →
      keeps s' → Throughout begins keeps s'

variable {init step fine}

/-- What holds at first and is kept by a step holds in every state reached. -/
theorem reachable_invariant (P : S → Prop) (hinit : ∀ s, init s → P s)
    (hstep : ∀ s s' e, P s → fine s e → step s e = some s' → P s') (s : S)
    (h : Reachable init step fine s) : P s := by
  induction h with
  | init s hs => exact hinit s hs
  | step s s' e _ he hs ih => exact hstep s s' e ih he hs

/-- A run is one whose events meet less. -/
theorem reachable_mono (fine' : S → E → Prop) (hle : ∀ s e, fine s e → fine' s e) (s : S)
    (h : Reachable init step fine s) : Reachable init step fine' s := by
  induction h with
  | init s hs => exact .init s hs
  | step s s' e _ he hs ih => exact .step s s' e ih (hle s e he) hs

/-- The state that events lead to, one after the other. -/
def stepAll (step : S → E → Option S) (s : S) : List E → Option S
  | [] => some s
  | e :: es => (step s e).bind fun s' => stepAll step s' es

/-- Events that are fine in every state. -/
theorem reachable_events (es : List E) (hfine : ∀ e ∈ es, ∀ s, fine s e) (s s' : S)
    (h : Reachable init step fine s) (hs : stepAll step s es = some s') :
    Reachable init step fine s' := by
  induction es generalizing s with
  | nil =>
    obtain rfl := Option.some.inj hs
    exact h
  | cons e es ih =>
    obtain ⟨s₁, hfirst, hrest⟩ := Option.bind_eq_some_iff.mp hs
    have hnext := Reachable.step s s₁ e h (hfine e List.mem_cons_self s) hfirst
    exact ih (fun e he => hfine e (List.mem_cons_of_mem _ he)) s₁ hnext hrest

theorem reachable_stepAll (hfine : ∀ s e, fine s e) (es : List E) (s s' : S)
    (h : Reachable init step fine s) (hs : stepAll step s es = some s') :
    Reachable init step fine s' :=
  reachable_events es (fun e _ s => hfine s e) s s' h hs

/-- Events that are checked, each in the state in which it happens. -/
theorem reachable_checked (check : S → E → Bool) (hfine : ∀ s e, check s e → fine s e)
    (es : List E) (s s' : S) (h : Reachable init step fine s)
    (hs : stepAll (fun s e => if check s e then step s e else none) s es = some s') :
    Reachable init step fine s' := by
  induction es generalizing s with
  | nil =>
    obtain rfl := Option.some.inj hs
    exact h
  | cons e es ih =>
    obtain ⟨s₁, hfirst, hrest⟩ := Option.bind_eq_some_iff.mp hs
    dsimp only at hfirst
    split at hfirst
    · rename_i hcheck
      exact ih s₁ (.step s s₁ e h (hfine s e hcheck) hfirst) hrest
    · cases hfirst

theorem throughout_reachable {begins : S → S → Prop} {keeps : S → Prop} (s : S)
    (h : Throughout init step fine begins keeps s) :
    Reachable init step fine s ∧ keeps s := by
  induction h with
  | begins s s' e hr he hs _ hk => exact ⟨.step s s' e hr he hs, hk⟩
  | goesOn s s' e _ he hs hk ih => exact ⟨.step s s' e ih.1 he hs, hk⟩

/-- What holds once something has begun, and is kept by a step while it goes on. -/
theorem throughout_invariant {begins : S → S → Prop} {keeps : S → Prop} (P : S → Prop)
    (hbegins : ∀ s s' e, Reachable init step fine s → fine s e → step s e = some s' →
      begins s s' → keeps s' → P s')
    (hgoes : ∀ s s' e, Reachable init step fine s → keeps s → P s → fine s e →
      step s e = some s' → keeps s' → P s') (s : S)
    (h : Throughout init step fine begins keeps s) : P s := by
  induction h with
  | begins s s' e hr he hs hb hk => exact hbegins s s' e hr he hs hb hk
  | goesOn s s' e ht he hs hk ih =>
    have hboth := throughout_reachable s ht
    exact hgoes s s' e hboth.1 hboth.2 ih he hs hk

end runs

end Juju.Base
