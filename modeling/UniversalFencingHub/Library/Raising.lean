import Mathlib.Logic.Basic

namespace raising

/-- A result that raises no other exceptions than the allowed ones. -/
def OnlyRaises {E A : Type} (allowed : E → Prop) (result : Except E A) : Prop :=
  ∀ exc, result = .error exc → allowed exc

section

variable {E A B : Type} {allowed : E → Prop} {exc : E} {value : A}

theorem OnlyRaises.ok : OnlyRaises allowed (.ok value : Except E A) := nofun

theorem OnlyRaises.error (h : allowed exc) : OnlyRaises allowed (.error exc : Except E A) := by
  intro _ heq
  exact Except.error.inj heq ▸ h

theorem OnlyRaises.bind {first : Except E A} {rest : A → Except E B} (hfirst : OnlyRaises allowed first)
    (hrest : ∀ value, first = .ok value → OnlyRaises allowed (rest value)) : OnlyRaises allowed (first >>= rest) := by
  cases first with
  | error exc => exact fun _ heq => hfirst _ (Except.error.inj heq ▸ rfl)
  | ok value => exact hrest value rfl

theorem bind_eq_ok {first : Except E A} {rest : A → Except E B} {value : B} :
    (first >>= rest) = .ok value ↔ ∃ middle, first = .ok middle ∧ rest middle = .ok value := by
  cases first with
  | error exc => exact iff_of_false nofun nofun
  | ok middle => exact ⟨fun h => ⟨middle, rfl, h⟩, fun ⟨_, heq, h⟩ => Except.ok.inj heq ▸ h⟩

/-- An exception of a sequence comes from its first part, or from the rest after the first part has
returned. -/
theorem attempt_eq_error {first : ExceptT E Option A} {rest : A → ExceptT E Option B} :
    (first >>= rest) = some (.error exc) ↔
      first = some (.error exc) ∨ ∃ value, first = some (.ok value) ∧ rest value = some (.error exc) := by
  match first with
  | none => exact iff_of_false nofun (fun h => h.elim nofun (fun ⟨_, heq, _⟩ => nomatch heq))
  | some (.error other) =>
    constructor
    · intro h
      cases h
      exact Or.inl rfl
    · rintro (heq | ⟨_, heq, _⟩)
      · cases heq
        rfl
      · cases heq
  | some (.ok value) =>
    constructor
    · intro h
      exact Or.inr ⟨value, rfl, h⟩
    · rintro (heq | ⟨_, heq, h⟩)
      · cases heq
      · cases heq
        exact h

/-- A sequence returns what its rest returns after the first part has returned. -/
theorem attempt_eq_ok {first : ExceptT E Option A} {rest : A → ExceptT E Option B} {value : B} :
    (first >>= rest) = some (.ok value) ↔ ∃ middle, first = some (.ok middle) ∧ rest middle = some (.ok value) := by
  match first with
  | none => exact iff_of_false nofun (fun ⟨_, heq, _⟩ => nomatch heq)
  | some (.error other) => exact iff_of_false nofun (fun ⟨_, heq, _⟩ => nomatch heq)
  | some (.ok middle) =>
    constructor
    · exact fun h => ⟨middle, rfl, h⟩
    · rintro ⟨_, heq, h⟩
      cases heq
      exact h

end

end raising
