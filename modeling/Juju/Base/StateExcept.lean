namespace Juju.Base

variable {ε σ α β : Type}

/-- `if p: raise e`. -/
def raiseIf (p : Prop) [Decidable p] (e : ε) : EStateM ε σ Unit :=
  if p then throw e else pure ()

/-- The state a call leaves, whether it returned or raised. -/
def leaves (r : EStateM.Result ε σ α) : σ :=
  match r with
  | .ok _ s => s
  | .error _ s => s

/-- A call, and then `f` on the state, whether the call returned or raised. -/
def finallyDo (m : EStateM ε σ α) (f : σ → σ) : EStateM ε σ α := fun s =>
  match m s with
  | .ok a s' => .ok a (f s')
  | .error e s' => .error e (f s')

@[simp] theorem raiseIf_bind (p : Prop) [Decidable p] (e : ε) (f : Unit → EStateM ε σ α)
    (s : σ) : (raiseIf p e >>= f) s = if p then .error e s else f () s := by
  by_cases h : p
  · simp only [raiseIf, h, if_true]
    rfl
  · simp only [raiseIf, h, if_false]
    rfl

@[simp] theorem get_bind (f : σ → EStateM ε σ α) (s : σ) :
    ((get : EStateM ε σ σ) >>= f) s = f s s := rfl

@[simp] theorem pure_run (a : α) (s : σ) : (pure a : EStateM ε σ α) s = .ok a s := rfl

@[simp] theorem get_run (s : σ) : (get : EStateM ε σ σ) s = .ok s s := rfl

@[simp] theorem modify_run (f : σ → σ) (s : σ) :
    (modify f : EStateM ε σ PUnit) s = .ok () (f s) := rfl

@[simp] theorem throw_run (e : ε) (s : σ) : (throw e : EStateM ε σ α) s = .error e s := rfl

@[simp] theorem set_bind (s s' : σ) (f : PUnit → EStateM ε σ α) :
    ((set s' : EStateM ε σ PUnit) >>= f) s = f () s' := rfl

@[simp] theorem modify_bind (g : σ → σ) (s : σ) (f : PUnit → EStateM ε σ α) :
    ((modify g : EStateM ε σ PUnit) >>= f) s = f () (g s) := rfl

@[simp] theorem throw_bind (e : ε) (f : α → EStateM ε σ β) (s : σ) :
    ((throw e : EStateM ε σ α) >>= f) s = .error e s := rfl

@[simp] theorem leaves_ok (a : α) (s : σ) :
    leaves (.ok a s : EStateM.Result ε σ α) = s := rfl

@[simp] theorem leaves_error (e : ε) (s : σ) :
    leaves (.error e s : EStateM.Result ε σ α) = s := rfl

theorem bind_run (m : EStateM ε σ α) (f : α → EStateM ε σ β) (s : σ) :
    (m >>= f) s = match m s with
      | .ok a s' => f a s'
      | .error e s' => .error e s' := rfl

theorem bind_of_ok (m : EStateM ε σ α) (f : α → EStateM ε σ β) (s s' : σ) (a : α)
    (h : m s = .ok a s') : (m >>= f) s = f a s' := by
  rw [bind_run, h]

/-- A sequence that returned has returned from both its parts. -/
theorem bind_ok (m : EStateM ε σ α) (f : α → EStateM ε σ β) (s s' : σ) (b : β)
    (h : (m >>= f) s = .ok b s') : ∃ a s₁, m s = .ok a s₁ ∧ f a s₁ = .ok b s' := by
  cases hm : m s with
  | ok a s₁ => exact ⟨a, s₁, rfl, by simpa [bind, EStateM.bind, hm] using h⟩
  | error e s₁ => simp [bind, EStateM.bind, hm] at h

/-- The same without a state. -/
theorem except_bind_ok (x : Except ε α) (f : α → Except ε β) (b : β) (h : (x >>= f) = .ok b) :
    ∃ a, x = .ok a ∧ f a = .ok b := by
  cases x with
  | error e => cases h
  | ok a => exact ⟨a, rfl, h⟩

theorem except_bind_of_ok (x : Except ε α) (f : α → Except ε β) (a : α) (h : x = .ok a) :
    (x >>= f) = f a := by
  rw [h]
  rfl

/-- A call keeps `P` true of the state, whether it returns or raises. -/
def Keeps (P : σ → Prop) (m : EStateM ε σ α) : Prop := ∀ s, P s → P (leaves (m s))

section keeps

variable (P : σ → Prop)

theorem keeps_pure (a : α) : Keeps P (pure a : EStateM ε σ α) := fun _ h => h

theorem keeps_throw (e : ε) : Keeps P (throw e : EStateM ε σ α) := fun _ h => h

theorem keeps_get : Keeps P (get : EStateM ε σ σ) := fun _ h => h

theorem keeps_modify (f : σ → σ) (h : ∀ s, P s → P (f s)) :
    Keeps P (modify f : EStateM ε σ PUnit) := h

theorem keeps_bind (m : EStateM ε σ α) (f : α → EStateM ε σ β) (hm : Keeps P m)
    (hf : ∀ a, Keeps P (f a)) : Keeps P (m >>= f) := by
  intro s hs
  have hfirst := hm s hs
  rw [bind_run]
  cases hrun : m s with
  | ok a s₁ =>
    rw [hrun] at hfirst
    exact hf a s₁ hfirst
  | error e s₁ =>
    rw [hrun] at hfirst
    exact hfirst

theorem keeps_ite (c : Prop) [Decidable c] (m₁ m₂ : EStateM ε σ α) (h₁ : c → Keeps P m₁)
    (h₂ : ¬ c → Keeps P m₂) : Keeps P (if c then m₁ else m₂) := by
  by_cases hc : c
  · rw [if_pos hc]
    exact h₁ hc
  · rw [if_neg hc]
    exact h₂ hc

end keeps

/-- A call raises nothing but errors of `P`. -/
def Raises (P : ε → Prop) (m : EStateM ε σ α) : Prop := ∀ s e s', m s = .error e s' → P e

section raises

variable (P : ε → Prop)

theorem raises_pure (a : α) : Raises P (pure a : EStateM ε σ α) := by
  intro s e s' h
  cases h

theorem raises_modify (f : σ → σ) : Raises P (modify f : EStateM ε σ PUnit) := by
  intro s e s' h
  cases h

theorem raises_bind (m : EStateM ε σ α) (f : α → EStateM ε σ β) (hm : Raises P m)
    (hf : ∀ a, Raises P (f a)) : Raises P (m >>= f) := by
  intro s e s' h
  rw [bind_run] at h
  cases hrun : m s with
  | ok a s₁ =>
    rw [hrun] at h
    exact hf a s₁ e s' h
  | error e₁ s₁ =>
    rw [hrun] at h
    obtain ⟨rfl, -⟩ := EStateM.Result.error.inj h
    exact hm s _ s₁ hrun

theorem raises_get_bind (f : σ → EStateM ε σ β) (h : ∀ s, Raises P (f s)) :
    Raises P (get >>= f) :=
  fun s => h s s

end raises

end Juju.Base
