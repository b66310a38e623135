import Juju.Base.StateExcept

namespace Juju.Base

variable {ε ε' α β : Type}

/-- A sequence returns just when both its parts do. -/
theorem except_bind_eq_ok (x : Except ε α) (f : α → Except ε β) (b : β) :
    (x >>= f) = .ok b ↔ ∃ a, x = .ok a ∧ f a = .ok b := by
  constructor
  · exact except_bind_ok x f b
  · rintro ⟨a, rfl, h⟩
    exact h

/-- What a sequence raises is raised by one of its parts. -/
theorem except_bind_error (x : Except ε α) (f : α → Except ε β) (e : ε)
    (h : (x >>= f) = .error e) : x = .error e ∨ ∃ a, x = .ok a ∧ f a = .error e := by
  cases x with
  | error e' => exact Or.inl (congrArg Except.error (Except.error.inj h))
  | ok a => exact Or.inr ⟨a, rfl, h⟩

theorem except_mapError_ok (f : ε → ε') (a : α) : (Except.ok a).mapError f = .ok a := rfl

theorem except_mapError_error (f : ε → ε') (e : ε) :
    (Except.error e : Except ε α).mapError f = .error (f e) := rfl

theorem mapError_error (x : Except ε α) (f : ε → ε') (e : ε') (h : x.mapError f = .error e) :
    ∃ e', x = .error e' ∧ f e' = e := by
  cases x with
  | error e' => exact ⟨e', rfl, Except.error.inj h⟩
  | ok a => cases h

theorem mapError_eq_ok (x : Except ε α) (f : ε → ε') (a : α) :
    x.mapError f = .ok a ↔ x = .ok a := by
  cases x with
  | error e => simp [except_mapError_error]
  | ok a' => simp [except_mapError_ok]

/-- A run ends with `a`, before its fuel does. -/
def Returns (x : ExceptT ε Option α) (a : α) : Prop := x.run = some (.ok a)

theorem returns_mk (x : Option (Except ε α)) (a : α) :
    Returns (ExceptT.mk x) a ↔ x = some (.ok a) := Iff.rfl

theorem returns_pure (a b : α) : Returns (pure a : ExceptT ε Option α) b ↔ a = b := by
  simp [Returns]

theorem returns_bind (x : ExceptT ε Option α) (f : α → ExceptT ε Option β) (b : β) :
    Returns (x >>= f) b ↔ ∃ a, Returns x a ∧ Returns (f a) b := by
  unfold Returns
  rw [ExceptT.run_bind]
  cases hx : x.run with
  | none => simp
  | some r =>
    cases r with
    | error e => simp
    | ok a => simp

end Juju.Base
